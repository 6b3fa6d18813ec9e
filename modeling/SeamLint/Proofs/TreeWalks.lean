import SeamLint.Proofs.WellFormedTree
import SeamLint.Surroundings.Classify

set_option autoImplicit false

/-! # Walks over well-formed trees

Every link of a tree may lead nowhere, and a walk that goes on until it runs out of nodes is cut
off, because links may lead in circles. In a well-formed tree neither happens. Links lead to the
nodes that they name (`gives_parent`, `gives_children`), and going up, indices decrease, so that
the walk ends at a node without a parent (`isWayUp_climb`).

`Gives` is total correctness: the computation succeeds, and what it gives is as stated.
-/

namespace SeamLint

/-- The computation succeeds, and what it gives satisfies `P`. -/
def Gives {ε α : Type} (P : α → Prop) (x : Except ε α) : Prop := ∃ a, x = .ok a ∧ P a

section Gives

variable {ε α β : Type} {P Q : α → Prop} {R : β → Prop}

theorem gives_pure {a : α} (h : P a) : Gives P (pure a : Except ε α) := ⟨a, rfl, h⟩

theorem gives_bind {x : Except ε α} {next : α → Except ε β} (hx : Gives P x)
    (hnext : ∀ a, P a → Gives R (next a)) : Gives R (x >>= next) := by
  obtain ⟨a, rfl, ha⟩ := hx
  exact hnext a ha

theorem Gives.mono {x : Except ε α} (hx : Gives P x) (h : ∀ a, P a → Q a) : Gives Q x := by
  obtain ⟨a, rfl, ha⟩ := hx
  exact ⟨a, rfl, h a ha⟩

end Gives

end SeamLint

namespace SeamLint.Code.Tree

/-- The nodes are those above `n`: each is the parent of the one before, and the last one has
none. -/
def IsWayUp (t : Tree) : Node → List Node → Prop
  | n, [] => n.parent = none
  | n, m :: rest => n.parent = some m.index ∧ m ∈ t.nodes ∧ t.IsWayUp m rest

theorem mem_nodes_of_isWayUp {t : Tree} {n m : Node} {line : List Node} (h : t.IsWayUp n line)
    (hm : m ∈ line) : m ∈ t.nodes := by
  induction line generalizing n with
  | nil => cases hm
  | cons first rest ih =>
      obtain ⟨-, hfirst, hrest⟩ := h
      rcases List.mem_cons.mp hm with rfl | hm
      · exact hfirst
      · exact ih hrest hm

namespace WellFormed

variable {t : Tree} {n : Node}

/-! ## Single links -/

theorem eq_of_index_eq (h : t.WellFormed) {m : Node} (hn : n ∈ t.nodes) (hm : m ∈ t.nodes)
    (heq : n.index = m.index) : n = m :=
  Option.some.inj ((h.getElem?_index hn).symm.trans (heq ▸ h.getElem?_index hm))

theorem gives_node (h : t.WellFormed) {i : Nat} (hi : i < t.size) :
    Gives (fun m => m ∈ t.nodes ∧ m.index = i) (t.node i) := by
  obtain ⟨m, hm⟩ := exists_getElem? hi
  refine ⟨m, ?_, Array.mem_of_getElem? hm, h.index i m hm⟩
  simp only [Tree.node, hm]

theorem gives_nodes (h : t.WellFormed) {indices : List Nat} (hindices : ∀ i ∈ indices, i < t.size) :
    Gives (fun found => (∀ m ∈ found, m ∈ t.nodes) ∧ found.map Node.index = indices)
      (indices.mapM t.node) := by
  induction indices with
  | nil => exact gives_pure ⟨by simp, rfl⟩
  | cons i indices ih =>
      obtain ⟨hi, hrest⟩ := List.forall_mem_cons.mp hindices
      rw [List.mapM_cons]
      refine gives_bind (h.gives_node hi) ?_
      rintro m ⟨hm, rfl⟩
      refine gives_bind (ih hrest) ?_
      rintro found ⟨hfound, rfl⟩
      exact gives_pure ⟨List.forall_mem_cons.mpr ⟨hm, hfound⟩, rfl⟩

/-- A link leads to the node that it names. -/
theorem gives_follow (h : t.WellFormed) {link : Option Nat} (hlink : ∀ i ∈ link, i < t.size) :
    Gives (fun found => ∀ m, m ∈ found ↔ m ∈ t.nodes ∧ link = some m.index) (t.follow link) := by
  cases link with
  | none => exact ⟨none, rfl, by simp⟩
  | some i =>
      obtain ⟨m, hm, hmem, hindex⟩ := h.gives_node (hlink i rfl)
      refine ⟨some m, by simp only [Tree.follow, hm, Except.map], fun m' => ?_⟩
      constructor
      · rintro ⟨⟩
        exact ⟨hmem, congrArg some hindex.symm⟩
      · rintro ⟨hmem', hindex'⟩
        exact congrArg some (h.eq_of_index_eq hmem hmem' (hindex.trans (Option.some.inj hindex')))

theorem index_lt (h : t.WellFormed) (hn : n ∈ t.nodes) : n.index < t.size :=
  lt_size (h.getElem?_index hn)

theorem gives_parent (h : t.WellFormed) (hn : n ∈ t.nodes) :
    Gives (fun found => ∀ m, m ∈ found ↔ m ∈ t.nodes ∧ n.parent = some m.index)
      (t.parent n) := by
  refine h.gives_follow fun p hp => ?_
  have hlt := h.parent_lt (h.getElem?_index hn) hp
  have hn' := h.index_lt hn
  omega

/-- The children of a node are the nodes that name it as their parent, each listed once. -/
theorem gives_children (h : t.WellFormed) (hn : n ∈ t.nodes) :
    Gives (fun found => found.Nodup ∧ ∀ m, m ∈ found ↔ m ∈ t.nodes ∧ m.parent = some n.index)
      (t.children n) := by
  have hindex := h.getElem?_index hn
  have hlinks : ∀ i ∈ n.children, i < t.size := fun i hi => by
    obtain ⟨m, hm, -⟩ := (h.mem_children_iff hindex).mp hi
    exact lt_size hm
  obtain ⟨found, hfound, hmem, hmap⟩ := h.gives_nodes hlinks
  refine ⟨found, hfound, ?_, fun m => ?_⟩
  · have hnodup : n.children.Nodup := (h.children_increasing hindex).imp Nat.ne_of_lt
    exact List.Nodup.of_map Node.index (hmap ▸ hnodup)
  · constructor
    · intro hm
      have hchild : m.index ∈ n.children := hmap ▸ List.mem_map_of_mem hm
      obtain ⟨m', hm', hparent⟩ := (h.mem_children_iff hindex).mp hchild
      obtain rfl : m = m' := Option.some.inj ((h.getElem?_index (hmem m hm)).symm.trans hm')
      exact ⟨hmem m hm, hparent⟩
    · rintro ⟨hm, hparent⟩
      have hchild : m.index ∈ found.map Node.index :=
        hmap ▸ (h.mem_children_iff hindex).mpr ⟨m, h.getElem?_index hm, hparent⟩
      obtain ⟨m', hm', heq⟩ := List.mem_map.mp hchild
      rwa [← h.eq_of_index_eq (hmem m' hm') hm heq]

theorem gives_firstChild (h : t.WellFormed) (hn : n ∈ t.nodes) :
    Gives (fun found => ∀ m, m ∈ found ↔ m ∈ t.nodes ∧ n.children.head? = some m.index)
      (t.firstChild n) := by
  refine h.gives_follow fun i hi => ?_
  have hmem : i ∈ n.children := List.mem_of_mem_head? hi
  obtain ⟨m, hm, -⟩ := (h.mem_children_iff (h.getElem?_index hn)).mp hmem
  exact lt_size hm

theorem gives_body (h : t.WellFormed) (hn : n ∈ t.nodes) :
    Gives (fun found => ∀ m ∈ found, m ∈ t.nodes) (t.body n) := by
  refine gives_bind (h.gives_children hn) fun found hfound => gives_pure fun m hm => ?_
  exact ((hfound.2 m).mp (List.mem_of_find?_eq_some hm)).1

/-! ## The way up -/

/-- **The way up ends at a node without a parent**, no matter how many more steps it might
take. -/
theorem isWayUp_climb (h : t.WellFormed) (hn : n ∈ t.nodes) {steps : Nat}
    (hsteps : n.index ≤ steps) :
    (t.climb steps n.parent).broken = false ∧ t.IsWayUp n (t.climb steps n.parent).nodes := by
  induction steps generalizing n with
  | zero =>
      -- node zero is the root
      have hzero : n.index = 0 := by omega
      have hroot : n.parent = none := (h.root n (hzero ▸ h.getElem?_index hn)).2
      rw [hroot]
      exact ⟨rfl, hroot⟩
  | succ steps ih =>
      cases hparent : n.parent with
      | none => exact ⟨rfl, hparent⟩
      | some p =>
          have hlt : p < n.index := h.parent_lt (h.getElem?_index hn) hparent
          obtain ⟨m, hm⟩ := exists_getElem? (hlt.trans (h.index_lt hn))
          have hindex : m.index = p := h.index p m hm
          have hmem : m ∈ t.nodes := Array.mem_of_getElem? hm
          obtain ⟨hbroken, hway⟩ := ih hmem (by omega)
          simp only [climb, hm, Lineage.cons]
          exact ⟨hbroken, by rw [hparent, hindex], hmem, hway⟩

theorem isWayUp_lineage (h : t.WellFormed) (hn : n ∈ t.nodes) :
    (t.lineage n).broken = false ∧ t.IsWayUp n (t.lineage n).nodes :=
  h.isWayUp_climb hn (Nat.le_of_lt (h.index_lt hn))

theorem gives_ancestors (h : t.WellFormed) (hn : n ∈ t.nodes) :
    Gives (t.IsWayUp n) (t.ancestors n) := by
  obtain ⟨hbroken, hway⟩ := h.isWayUp_lineage hn
  refine ⟨(t.lineage n).nodes, ?_, hway⟩
  simp [Tree.ancestors, hbroken]

theorem gives_enclosing (h : t.WellFormed) (hn : n ∈ t.nodes) (p : Kind → Bool) :
    Gives (fun found => ∀ m ∈ found, m ∈ t.nodes) (t.enclosing n p) := by
  obtain ⟨hbroken, hway⟩ := h.isWayUp_lineage hn
  unfold Tree.enclosing
  cases hfind : (t.lineage n).nodes.find? fun ancestor => p ancestor.kind with
  | none => exact ⟨none, by simp [hfind, hbroken], by simp⟩
  | some m =>
      refine ⟨some m, by simp [hfind], ?_⟩
      simpa using mem_nodes_of_isWayUp hway (List.mem_of_find?_eq_some hfind)

end WellFormed

end SeamLint.Code.Tree

/-! ## Calls -/

namespace SeamLint.Surroundings

open SeamLint.Code

variable {t : Tree} {n : Node}

theorem gives_memberCallee (h : t.WellFormed) (hn : n ∈ t.nodes) :
    Gives (fun found => ∀ m, m ∈ found ↔
      m ∈ t.nodes ∧ n.children.head? = some m.index ∧ m.kind = .memberAccess)
      (memberCallee t n) := by
  refine gives_bind (h.gives_firstChild hn) fun found hfound => gives_pure fun m => ?_
  rw [Option.mem_filter_iff, hfound, decide_eq_true_iff, and_assoc]

theorem gives_parentOfKind (h : t.WellFormed) (kind : Kind) (hn : n ∈ t.nodes) :
    Gives (fun found => ∀ m, m ∈ found ↔
      m ∈ t.nodes ∧ n.parent = some m.index ∧ m.kind = kind)
      (parentOfKind t kind n) := by
  refine gives_bind (h.gives_parent hn) fun found hfound => gives_pure fun m => ?_
  rw [Option.mem_filter_iff, hfound, decide_eq_true_iff, and_assoc]

end SeamLint.Surroundings
