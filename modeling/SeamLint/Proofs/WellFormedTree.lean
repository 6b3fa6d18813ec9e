import Mathlib.Data.List.Nodup
import Mathlib.Data.List.Range
import Mathlib.Logic.Relation
import SeamLint.Code.Tree

set_option autoImplicit false

/-! # Well-formed trees

A node names its parent and lists its children, and nothing in a `Tree` makes the two agree.
In a well-formed tree they do: the children of a node are exactly the nodes that name it as
their parent (`mem_children_iff`), parents come before children (`parent_lt`), so every node
but the root is listed as a child once (`children_perm`) and the way up from any node ends at
the root (`reaches_root`).
-/

namespace SeamLint.Code

/-- Node `i` names node `p` as its parent. -/
def Tree.IsParent (t : Tree) (i p : Nat) : Prop := ∃ n, t.nodes[i]? = some n ∧ n.parent = some p

namespace Tree.WellFormed

variable {t : Tree} {n : Node} {i j p : Nat}

/-! ## Single nodes -/

/-- A node of the tree stands at its own index. -/
theorem getElem?_index (h : t.WellFormed) (hn : n ∈ t.nodes) : t.nodes[n.index]? = some n := by
  obtain ⟨i, hi⟩ := Array.mem_iff_getElem?.mp hn
  have hindex : n.index = i := h.index i n hi
  rw [hindex, hi]

theorem exists_getElem? (hi : i < t.size) : ∃ n, t.nodes[i]? = some n :=
  ⟨t.nodes[i], Array.getElem?_eq_getElem hi⟩

/-- The nodes are listed in the order of their indices. -/
theorem map_index_nodes (h : t.WellFormed) : t.nodes.toList.map Node.index = List.range t.size := by
  refine List.ext_getElem (by simp [Tree.size]) fun i hi _ => ?_
  rw [List.length_map, Array.length_toList] at hi
  have hindex : t.nodes[i].index = i := h.index i _ (Array.getElem?_eq_getElem hi)
  simpa using hindex

theorem nodup_nodes (h : t.WellFormed) : t.nodes.toList.Nodup :=
  .of_map Node.index (h.map_index_nodes ▸ List.nodup_range)

theorem lt_size (hn : t.nodes[i]? = some n) : i < t.size :=
  (Array.getElem?_eq_some_iff.mp hn).1

/-! ## Links -/

/-- Parents come before their children. -/
theorem parent_lt (h : t.WellFormed) (hn : t.nodes[i]? = some n) (hp : n.parent = some p) :
    p < i := by
  rcases Nat.eq_zero_or_pos i with rfl | hi
  · have hroot : n.parent = none := (h.root n hn).2
    rw [hroot] at hp
    cases hp
  · obtain ⟨q, hq, hlt⟩ := h.parent i n hn hi
    have hqp : q = p := Option.some.inj (hq.symm.trans hp)
    omega

/-- The children of a node are the nodes that name it as their parent. -/
theorem mem_children_iff (h : t.WellFormed) (hn : t.nodes[i]? = some n) :
    j ∈ n.children ↔ t.IsParent j i := by
  rw [h.children i n hn, List.mem_filter, List.mem_range, decide_eq_true_iff]
  constructor
  · rintro ⟨-, hj⟩
    exact Option.bind_eq_some_iff.mp hj
  · rintro ⟨m, hm, hparent⟩
    exact ⟨lt_size hm, Option.bind_eq_some_iff.mpr ⟨m, hm, hparent⟩⟩

theorem lt_of_mem_children (h : t.WellFormed) (hn : t.nodes[i]? = some n) (hj : j ∈ n.children) :
    i < j := by
  obtain ⟨m, hm, hparent⟩ := (h.mem_children_iff hn).mp hj
  exact h.parent_lt hm hparent

/-- Children are listed in the order of their indices. -/
theorem children_increasing (h : t.WellFormed) (hn : t.nodes[i]? = some n) :
    n.children.Pairwise (· < ·) := by
  rw [h.children i n hn]
  exact List.pairwise_lt_range.filter _

/-! ## The whole tree -/

/-- Two nodes have no child in common. -/
theorem children_disjoint (h : t.WellFormed) {m : Node} (hn : t.nodes[i]? = some n)
    (hm : t.nodes[j]? = some m) (hne : i ≠ j) : n.children.Disjoint m.children := by
  intro k hk hk'
  obtain ⟨c, hc, hparent⟩ := (h.mem_children_iff hn).mp hk
  obtain ⟨c', hc', hparent'⟩ := (h.mem_children_iff hm).mp hk'
  have hsame : c = c' := Option.some.inj (hc.symm.trans hc')
  rw [hsame] at hparent
  exact hne (Option.some.inj (hparent.symm.trans hparent'))

/-- The indices that are listed as children: all but that of the root. -/
theorem mem_flatMap_children_iff (h : t.WellFormed) :
    j ∈ t.nodes.toList.flatMap Node.children ↔ 0 < j ∧ j < t.size := by
  rw [List.mem_flatMap]
  constructor
  · rintro ⟨n, hn, hj⟩
    have hindex := h.getElem?_index (Array.mem_toList_iff.mp hn)
    have hlt := h.lt_of_mem_children hindex hj
    obtain ⟨m, hm, -⟩ := (h.mem_children_iff hindex).mp hj
    exact ⟨by omega, lt_size hm⟩
  · rintro ⟨hpos, hlt⟩
    obtain ⟨m, hm⟩ := exists_getElem? hlt
    obtain ⟨p, hp, hpj⟩ := h.parent j m hm hpos
    obtain ⟨n, hn⟩ := exists_getElem? (hpj.trans hlt)
    refine ⟨n, Array.mem_toList_iff.mpr (Array.mem_of_getElem? hn), ?_⟩
    exact (h.mem_children_iff hn).mpr ⟨m, hm, hp⟩

/-- **Every node but the root is a child, of one node and once.** -/
theorem children_perm (h : t.WellFormed) :
    (t.nodes.toList.flatMap Node.children).Perm (List.range' 1 (t.size - 1)) := by
  have hnodup : (t.nodes.toList.flatMap Node.children).Nodup := by
    rw [List.nodup_flatMap]
    constructor
    · intro n hn
      have hindex := h.getElem?_index (Array.mem_toList_iff.mp hn)
      exact (h.children_increasing hindex).imp Nat.ne_of_lt
    · rw [List.pairwise_iff_getElem]
      intro i j hi hj hlt
      have hni : t.nodes[i]? = some t.nodes.toList[i] := by
        rw [← Array.getElem?_toList, List.getElem?_eq_getElem hi]
      have hnj : t.nodes[j]? = some t.nodes.toList[j] := by
        rw [← Array.getElem?_toList, List.getElem?_eq_getElem hj]
      exact h.children_disjoint hni hnj (Nat.ne_of_lt hlt)
  -- neither side lists an index twice, so it is enough that they list the same ones
  refine (List.perm_ext_iff_of_nodup hnodup List.nodup_range').mpr fun j => ?_
  have hsize := h.nonempty
  rw [h.mem_flatMap_children_iff, List.mem_range'_1]
  omega

/-- **The way up from any node ends at the root.** -/
theorem reaches_root (h : t.WellFormed) (hi : i < t.size) :
    Relation.ReflTransGen t.IsParent i 0 := by
  -- by the index, because parents come before their children
  induction i using Nat.strong_induction_on with
  | _ i ih =>
      rcases Nat.eq_zero_or_pos i with rfl | hpos
      · exact .refl
      · obtain ⟨n, hn⟩ := exists_getElem? hi
        obtain ⟨p, hp, hlt⟩ := h.parent i n hn hpos
        exact .head ⟨n, hn, hp⟩ (ih p hlt (hlt.trans hi))

end Tree.WellFormed

end SeamLint.Code
