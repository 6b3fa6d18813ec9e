import Mathlib.Data.Finset.Card
import Mathlib.Logic.Function.Iterate
import Mathlib.Order.Bounds.Defs
import SeamLint.Proofs.Ancestry

set_option autoImplicit false

/-! # Following parent links

Nothing makes the parent links of a tree lead to its root: they may run in a circle, and so the
walk upward is cut off after as many nodes as the tree has. `above?` follows any number of links.
What is reached by many of them is reached by fewer than the tree has nodes, because otherwise some
node comes twice and the links between can be left out (`exists_lt_above?_eq`). So the cut-off hides
nothing: a walk meets exactly the nodes that can be reached (`IsWalk.mem_iff`), each for the first
time at its distance (`IsWalk.isDistance_idxOf`), and the first one that satisfies a condition is
the nearest (`IsWalk.find?_eq_some_iff`).
-/

namespace SeamLint.Code.Tree

/-- Every parent link leads to a node of the tree. -/
def HasParents (t : Tree) : Prop := ∀ n ∈ t.nodes, ∀ i, n.parent = some i → i < t.size

/-- The node that the parent link of `n` leads to. -/
def up? (t : Tree) (n : Node) : Option Node := n.parent.bind fun i => t.nodes[i]?

/-- The parent link of `n` leads to `m`. -/
def IsUp (t : Tree) (n m : Node) : Prop := t.up? n = some m

/-- The node that `k` parent links, one after another, lead to from `n`. -/
def above? (t : Tree) (k : Nat) (n : Node) : Option Node := (Option.bind · t.up?)^[k] (some n)

/-- The least number of links, but at least one, by which `a` is reached from `n`. -/
def IsDistance (t : Tree) (n a : Node) (k : Nat) : Prop :=
  IsLeast {k | 0 < k ∧ t.above? k n = some a} k

/-- Of the nodes that links lead to from `n` and whose kinds satisfy `p`, node `a` is the
nearest. -/
def IsNearestUp (t : Tree) (p : Kind → Bool) (n a : Node) : Prop :=
  ∃ k, t.IsDistance n a k ∧ p a.kind = true ∧
    ∀ b j, t.IsDistance n b j → p b.kind = true → k ≤ j

variable {t : Tree} {n m a b : Node} {k : Nat}

/-! ## Any number of links -/

theorem above?_succ : t.above? (k + 1) n = (t.above? k n).bind t.up? :=
  Function.iterate_succ_apply' _ _ _

theorem above?_succ_of_up (h : t.up? n = some m) : t.above? (k + 1) n = t.above? k m := by
  rw [above?, Function.iterate_succ_apply, Option.bind_some, h, above?]

theorem above?_succ_of_top (h : t.up? n = none) : t.above? (k + 1) n = none := by
  rw [above?, Function.iterate_succ_apply, Option.bind_some, h]
  exact Function.iterate_fixed rfl k

theorem above?_add (j k : Nat) :
    t.above? (j + k) n = (Option.bind · t.up?)^[j] (t.above? k n) :=
  Function.iterate_add_apply _ _ _ _

theorem mem_nodes_of_up (h : t.up? n = some m) : m ∈ t.nodes := by
  obtain ⟨i, -, hi⟩ := Option.bind_eq_some_iff.mp h
  exact Array.mem_of_getElem? hi

/-- Before a node that is reached, there is a node after every smaller number of links. -/
theorem exists_above?_of_le {j : Nat} (h : t.above? (k + 1) n = some a) (hj : j ≤ k) :
    ∃ m ∈ t.nodes, t.above? (j + 1) n = some m := by
  obtain ⟨d, rfl⟩ := Nat.exists_eq_add_of_le hj
  cases hm : t.above? (j + 1) n with
  | none =>
      rw [show j + d + 1 = d + (j + 1) by omega, above?_add, hm] at h
      rw [Function.iterate_fixed rfl] at h
      cases h
  | some m =>
      rw [above?_succ] at hm
      obtain ⟨m', -, hup⟩ := Option.bind_eq_some_iff.mp hm
      exact ⟨m, mem_nodes_of_up hup, rfl⟩

/-- Among more nodes on the way up than the tree has, one comes twice. -/
theorem exists_above?_eq_above? (h : t.above? (k + 1) n = some a) (hk : t.size ≤ k) :
    ∃ i j, i < j ∧ j ≤ k ∧ t.above? (i + 1) n = t.above? (j + 1) n := by
  let places : Finset (Option Node) := t.nodes.toList.toFinset.image some
  have hcard : places.card < (Finset.range (k + 1)).card := by
    calc places.card ≤ t.nodes.toList.toFinset.card := Finset.card_image_le
      _ ≤ t.nodes.toList.length := List.toFinset_card_le _
      _ = t.size := Array.length_toList
      _ < (Finset.range (k + 1)).card := by rw [Finset.card_range]; omega
  have hmaps : Set.MapsTo (fun j => t.above? (j + 1) n) (Finset.range (k + 1)) places := by
    intro j hj
    have hle : j ≤ k := by simpa [Nat.lt_succ_iff] using hj
    obtain ⟨m, hm, habove⟩ := exists_above?_of_le h hle
    simpa [places, habove] using hm
  obtain ⟨i, hi, j, hj, hne, heq⟩ := Finset.exists_ne_map_eq_of_card_lt_of_maps_to hcard hmaps
  rw [Finset.mem_range] at hi hj
  rcases Nat.lt_or_gt_of_ne hne with hlt | hlt
  · exact ⟨i, j, hlt, by omega, heq⟩
  · exact ⟨j, i, hlt, by omega, heq.symm⟩

/-- **What is reached at all is reached by fewer links than a walk takes.** -/
theorem exists_lt_above?_eq (h : t.above? (k + 1) n = some a) :
    ∃ j < t.size, t.above? (j + 1) n = some a := by
  induction k using Nat.strong_induction_on with
  | _ k ih =>
      by_cases hk : k < t.size
      · exact ⟨k, hk, h⟩
      · -- the way from the first visit to the second can be left out
        obtain ⟨i, j, hij, hjk, heq⟩ := exists_above?_eq_above? h (Nat.le_of_not_lt hk)
        refine ih (k - j + i) (by omega) ?_
        calc t.above? (k - j + (i + 1)) n
            = t.above? (k - j + (j + 1)) n := by rw [above?_add, heq, ← above?_add]
          _ = some a := by rw [← h]; congr 1; omega

theorem transGen_isUp_iff : Relation.TransGen t.IsUp n a ↔ ∃ k, t.above? (k + 1) n = some a := by
  constructor
  · intro h
    induction h with
    | single hup => exact ⟨0, hup⟩
    | tail _ hup ih =>
        obtain ⟨k, hk⟩ := ih
        exact ⟨k + 1, by rw [above?_succ, hk]; exact hup⟩
  · rintro ⟨k, hk⟩
    induction k generalizing a with
    | zero => exact .single hk
    | succ k ih =>
        rw [above?_succ] at hk
        obtain ⟨m, hm, hup⟩ := Option.bind_eq_some_iff.mp hk
        exact (ih hm).tail hup

/-! ## Walks -/

/-- The nodes that one link, two links and so on lead to, as many as the tree has at most. -/
structure IsWalk (t : Tree) (n : Node) (met : List Node) : Prop where
  length_le : met.length ≤ t.size
  getElem? : ∀ k < t.size, met[k]? = t.above? (k + 1) n

/-- One step of the walk. -/
theorem climb_of_up {steps : Nat} (h : t.up? n = some m) :
    t.climb (steps + 1) n.parent = (t.climb steps m.parent).cons m := by
  obtain ⟨i, hi, hm⟩ := Option.bind_eq_some_iff.mp h
  simp only [hi, climb, hm]

/-- **The walk follows one link after another**, up to the last of its steps. -/
theorem climb_eq_above? (h : t.HasParents) (hn : n ∈ t.nodes) (steps : Nat) :
    (t.climb steps n.parent).broken = false ∧ (t.climb steps n.parent).nodes.length ≤ steps ∧
      ∀ k < steps, (t.climb steps n.parent).nodes[k]? = t.above? (k + 1) n := by
  induction steps generalizing n with
  | zero =>
      cases n.parent with
      | none => exact ⟨rfl, Nat.le_refl 0, nofun⟩
      | some i => exact ⟨rfl, Nat.le_refl 0, nofun⟩
  | succ steps ih =>
      cases hparent : n.parent with
      | none =>
          have htop : t.up? n = none := by rw [up?, hparent, Option.bind_none]
          exact ⟨rfl, Nat.zero_le _, fun k _ => (above?_succ_of_top htop).symm⟩
      | some i =>
          obtain ⟨m, hm⟩ := WellFormed.exists_getElem? (h n hn i hparent)
          have hup : t.up? n = some m := by rw [up?, hparent, Option.bind_some, hm]
          obtain ⟨hbroken, hlength, hnodes⟩ := ih (mem_nodes_of_up hup)
          rw [← hparent, climb_of_up hup]
          refine ⟨hbroken, Nat.succ_le_succ hlength, fun k hk => ?_⟩
          rw [above?_succ_of_up hup]
          cases k with
          | zero => rfl
          | succ k => exact hnodes k (Nat.lt_of_succ_lt_succ hk)

/-- **Nodes above and the enclosing node are looked up on the walk.** -/
theorem exists_isWalk (h : t.HasParents) (hn : n ∈ t.nodes) :
    ∃ met, t.IsWalk n met ∧ t.ancestors n = .ok met ∧
      ∀ p : Kind → Bool, t.enclosing n p = .ok (met.find? fun m => p m.kind) := by
  obtain ⟨hbroken, hlength, hnodes⟩ := climb_eq_above? h hn t.size
  refine ⟨(t.lineage n).nodes, ⟨hlength, hnodes⟩, ?_, fun p => ?_⟩
  · simp only [ancestors, lineage, hbroken, Bool.false_eq_true, if_false]
  · simp only [enclosing, lineage, hbroken, Bool.false_eq_true, if_false]
    split
    · next hfind => rw [hfind]
    · next hfind => rw [hfind]

namespace IsWalk

variable {met : List Node}

theorem getElem?_eq_some (h : t.IsWalk n met) (hk : met[k]? = some a) :
    t.above? (k + 1) n = some a := by
  have hlt : k < met.length := (List.getElem?_eq_some_iff.mp hk).1
  rw [← h.getElem? k (Nat.lt_of_lt_of_le hlt h.length_le), hk]

/-- **A walk meets exactly the nodes that can be reached.** -/
theorem mem_iff (h : t.IsWalk n met) : a ∈ met ↔ Relation.TransGen t.IsUp n a := by
  rw [transGen_isUp_iff, List.mem_iff_getElem?]
  constructor
  · rintro ⟨k, hk⟩
    exact ⟨k, h.getElem?_eq_some hk⟩
  · rintro ⟨k, hk⟩
    obtain ⟨j, hj, habove⟩ := exists_lt_above?_eq hk
    exact ⟨j, by rw [h.getElem? j hj, habove]⟩

/-- What does not stand in one of the first `k` places is not reached by `k` links or fewer. -/
theorem lt_of_above? (h : t.IsWalk n met) (hk : k ≤ t.size) (hbefore : ∀ j < k, met[j]? ≠ some a)
    {j : Nat} (hpos : 0 < j) (habove : t.above? j n = some a) : k < j := by
  obtain ⟨j, rfl⟩ := Nat.exists_eq_succ_of_ne_zero (Nat.ne_of_gt hpos)
  by_contra hle
  have hjk : j < k := by omega
  exact hbefore j hjk (by rw [h.getElem? j (by omega), habove])

/-- The first place where a node stands is its distance. -/
theorem isDistance_of_first (h : t.IsWalk n met) (hk : met[k]? = some a)
    (hfirst : ∀ j < k, met[j]? ≠ some a) : t.IsDistance n a (k + 1) := by
  have hlt : k < met.length := (List.getElem?_eq_some_iff.mp hk).1
  refine ⟨⟨Nat.succ_pos k, h.getElem?_eq_some hk⟩, ?_⟩
  rintro j ⟨hpos, habove⟩
  exact h.lt_of_above? (hlt.le.trans h.length_le) hfirst hpos habove

/-- **A walk meets every node for the first time at its distance.** -/
theorem isDistance_idxOf (h : t.IsWalk n met) (ha : a ∈ met) :
    t.IsDistance n a (met.idxOf a + 1) := by
  refine h.isDistance_of_first (List.getElem?_idxOf ha) fun j hj heq => ?_
  obtain ⟨hlt, hget⟩ := List.getElem?_eq_some_iff.mp heq
  have hne : (met[j] == a) = false := List.not_of_lt_findIdx hj
  simp [hget] at hne

end IsWalk

/-! ## The nearest node -/

/-- There is one nearest node. -/
theorem eq_of_isNearestUp {p : Kind → Bool} (ha : t.IsNearestUp p n a)
    (hb : t.IsNearestUp p n b) : a = b := by
  obtain ⟨k, hdistance, hkind, hnearest⟩ := ha
  obtain ⟨k', hdistance', hkind', hnearest'⟩ := hb
  obtain rfl : k = k' :=
    Nat.le_antisymm (hnearest b k' hdistance' hkind') (hnearest' a k hdistance hkind)
  exact Option.some.inj (hdistance.1.2.symm.trans hdistance'.1.2)

namespace IsWalk

variable {met : List Node} {p : Kind → Bool}

theorem find?_eq_none_iff (h : t.IsWalk n met) :
    met.find? (fun m => p m.kind) = none ↔
      ∀ a, Relation.TransGen t.IsUp n a → p a.kind = false := by
  simp [← h.mem_iff]

/-- The first node of a walk that satisfies a condition is the nearest. -/
theorem isNearestUp_of_find? (h : t.IsWalk n met)
    (hfind : met.find? (fun m => p m.kind) = some a) : t.IsNearestUp p n a := by
  obtain ⟨hkind, k, hlt, hk, hbefore⟩ := List.find?_eq_some_iff_getElem.mp hfind
  -- whatever satisfies the condition stands at `k` or after it
  have hnot (j : Nat) (b : Node) (hj : j < k) (hkind' : p b.kind = true) : met[j]? ≠ some b := by
    intro heq
    obtain ⟨_, hget⟩ := List.getElem?_eq_some_iff.mp heq
    simpa [hget, hkind'] using hbefore j hj
  have hget : met[k]? = some a := List.getElem?_eq_some_iff.mpr ⟨hlt, hk⟩
  refine ⟨k + 1, h.isDistance_of_first hget fun j hj => hnot j a hj hkind, hkind, ?_⟩
  rintro b j ⟨⟨hpos, habove⟩, -⟩ hkind'
  exact h.lt_of_above? (hlt.le.trans h.length_le) (fun i hi => hnot i b hi hkind') hpos habove

/-- **The first node of a walk that satisfies a condition, if there is one, is the nearest.** -/
theorem find?_eq_some_iff (h : t.IsWalk n met) :
    met.find? (fun m => p m.kind) = some a ↔ t.IsNearestUp p n a := by
  refine ⟨h.isNearestUp_of_find?, fun hnearest => ?_⟩
  cases hfind : met.find? fun m => p m.kind with
  | none =>
      obtain ⟨k, ⟨⟨hpos, habove⟩, -⟩, hkind, -⟩ := hnearest
      obtain ⟨k, rfl⟩ := Nat.exists_eq_succ_of_ne_zero (Nat.ne_of_gt hpos)
      have hreached : Relation.TransGen t.IsUp n a := transGen_isUp_iff.mpr ⟨k, habove⟩
      rw [h.find?_eq_none_iff.mp hfind a hreached] at hkind
      cases hkind
  | some b => rw [eq_of_isNearestUp (h.isNearestUp_of_find? hfind) hnearest]

end IsWalk

/-! ## Trees that are made -/

namespace WellFormed

theorem hasParents (h : t.WellFormed) : t.HasParents := by
  intro n hn i hparent
  exact (h.parent_lt (h.getElem?_index hn) hparent).trans (h.index_lt hn)

/-- On the way up indices decrease. -/
theorem wayUp_decreasing (h : t.WellFormed) {met : List Node} (hway : t.IsWayUp n met) :
    (met.map Node.index).Pairwise (· > ·) := by
  induction met generalizing n with
  | nil => exact .nil
  | cons m rest ih =>
      obtain ⟨-, hm, hrest⟩ := hway
      rw [List.map_cons, List.pairwise_cons]
      refine ⟨fun i hi => ?_, ih hrest⟩
      obtain ⟨a, ha, rfl⟩ := List.mem_map.mp hi
      exact h.index_lt_of_isAncestor ((h.mem_wayUp_iff hm hrest).mp ha)

/-- The way up from a node that is not the root ends at the root. -/
theorem getLast?_wayUp (h : t.WellFormed) {met : List Node} (hn : n ∈ t.nodes)
    (hway : t.IsWayUp n met) (hne : n.index ≠ 0) :
    (met.map Node.index).getLast? = some 0 := by
  induction met generalizing n with
  | nil =>
      obtain ⟨p, hp, -⟩ := h.parent _ n (h.getElem?_index hn) (Nat.pos_of_ne_zero hne)
      rw [show n.parent = none from hway] at hp
      cases hp
  | cons m rest ih =>
      obtain ⟨-, hm, hrest⟩ := hway
      rw [List.map_cons, List.getLast?_cons]
      by_cases hroot : m.index = 0
      · -- above the root there is nothing
        have htop : m.parent = none := (h.root m (hroot ▸ h.getElem?_index hm)).2
        cases rest with
        | nil => rw [hroot]; rfl
        | cons m' rest =>
            rw [hrest.1] at htop
            cases htop
      · rw [ih hm hrest hroot]
        rfl

end WellFormed

/-- **The bounded walk upward misses nothing.** If every parent link of a tree leads to one of its
nodes, though the links may run in circles and disagree with the children, then the walk from any
node ends, after no more nodes than the tree has. It meets exactly the nodes that one or more links
lead to, each for the first time at its distance, so the search for an enclosing node gives the
nearest node of the wanted kinds that can be reached, or nothing if there is none. In a tree that
was built or decoded all links are in order, the indices decrease along the walk, and from every
node but the root it ends at node zero. -/
theorem walk_up_misses_nothing (t : Tree) :
    (t.HasParents → ∀ n ∈ t.nodes, ∃ met, t.ancestors n = .ok met ∧ met.length ≤ t.size ∧
      (∀ a, a ∈ met ↔ Relation.TransGen t.IsUp n a) ∧
      (∀ a ∈ met, t.IsDistance n a (met.idxOf a + 1)) ∧
      ∀ p : Kind → Bool, ∃ found, t.enclosing n p = .ok found ∧
        (∀ a, found = some a ↔ t.IsNearestUp p n a) ∧
        (found = none ↔ ∀ a, Relation.TransGen t.IsUp n a → p a.kind = false)) ∧
    (Scan.IsMade t → t.HasParents ∧ ∀ n ∈ t.nodes, ∃ met, t.ancestors n = .ok met ∧
      (met.map Node.index).Pairwise (· > ·) ∧
      (n.index ≠ 0 → (met.map Node.index).getLast? = some 0)) := by
  constructor
  · intro h n hn
    obtain ⟨met, hwalk, hancestors, henclosing⟩ := exists_isWalk h hn
    exact ⟨met, hancestors, hwalk.length_le, fun a => hwalk.mem_iff,
      fun a ha => hwalk.isDistance_idxOf ha, fun p => ⟨_, henclosing p,
        fun a => hwalk.find?_eq_some_iff, hwalk.find?_eq_none_iff⟩⟩
  · intro hmade
    have h := Scan.wellFormed_of_isMade hmade
    refine ⟨h.hasParents, fun n hn => ?_⟩
    obtain ⟨met, hmet, hway⟩ := h.gives_ancestors hn
    exact ⟨met, hmet, h.wayUp_decreasing hway, h.getLast?_wayUp hn hway⟩

/-- The links lead from node zero to node one and then to and fro between node one and node two. -/
def circle : Tree where
  path := "<arena>"
  nodes := #[{ kind := .classDeclaration, index := 0, parent := some 1 },
    { kind := .method, index := 1, parent := some 2, children := [0, 0] },
    { kind := .classDeclaration, index := 2, parent := some 1 }]

/-- A class with a method in it, made after a call that was refused. -/
def methodInClassCalls : List Builder.Call :=
  [.add none { kind := .classDeclaration }, .add (some 7) { kind := .field },
   .add (some 1) { kind := .method }, .build]

/-- The tree that the calls build. -/
def methodInClass : Tree := ((Builder.start "src/App.cs").run methodInClassCalls).2.tree

theorem hasParents_circle : circle.HasParents := by
  intro n hn i hparent
  have hlinks : ∀ n ∈ circle.nodes.toList, n.parent = some 1 ∨ n.parent = some 2 := by decide
  rcases hlinks n (Array.mem_toList_iff.mpr hn) with hone | htwo
  · obtain rfl : 1 = i := Option.some.inj (hone.symm.trans hparent)
    decide
  · obtain rfl : 2 = i := Option.some.inj (htwo.symm.trans hparent)
    decide

/-- In the circle node one is above itself, node zero is not, and the class around node zero is node
two. In the tree that was built the walk from the method ends at the root. -/
theorem walk_up_misses_nothing_circle :
    (∃ zero one two, circle.nodes = #[zero, one, two] ∧ Relation.TransGen circle.IsUp one one ∧
      ¬Relation.TransGen circle.IsUp zero zero ∧
      circle.IsNearestUp (· == .classDeclaration) zero two) ∧
    ∃ n, methodInClass.nodes[2]? = some n ∧ ∃ met, methodInClass.ancestors n = .ok met ∧
      (met.map Node.index).Pairwise (· > ·) ∧ (met.map Node.index).getLast? = some 0 := by
  constructor
  · obtain ⟨zero, one, two, hnodes, hone, hzero, henclosing, hnot⟩ : ∃ zero one two,
        circle.nodes = #[zero, one, two] ∧ circle.ancestors one = .ok [two, one, two] ∧
        circle.ancestors zero = .ok [one, two, one] ∧
        circle.enclosing zero (· == .classDeclaration) = .ok (some two) ∧
        zero ∉ [one, two, one] :=
      ⟨_, _, _, rfl, rfl, rfl, rfl, by decide⟩
    obtain ⟨met, hmet, -, hmem, -⟩ :=
      (walk_up_misses_nothing circle).1 hasParents_circle one (by simp [hnodes])
    obtain ⟨met', hmet', -, hmem', -, hnearest⟩ :=
      (walk_up_misses_nothing circle).1 hasParents_circle zero (by simp [hnodes])
    obtain rfl := Except.ok.inj (hone.symm.trans hmet)
    obtain rfl := Except.ok.inj (hzero.symm.trans hmet')
    obtain ⟨found, hfound, hiff, -⟩ := hnearest (· == .classDeclaration)
    obtain rfl := Except.ok.inj (henclosing.symm.trans hfound)
    exact ⟨zero, one, two, hnodes, (hmem one).mp (by simp), fun h => hnot ((hmem' zero).mpr h),
      (hiff two).mp rfl⟩
  · have hmade : Scan.IsMade methodInClass :=
      Or.inl ⟨"src/App.cs", methodInClassCalls, List.mem_of_getElem? (i := 3) rfl⟩
    obtain ⟨n, hn, hindex⟩ : ∃ n, methodInClass.nodes[2]? = some n ∧ n.index ≠ 0 :=
      ⟨_, rfl, by decide⟩
    obtain ⟨met, hmet, hdecreasing, hlast⟩ :=
      ((walk_up_misses_nothing methodInClass).2 hmade).2 n (Array.mem_of_getElem? hn)
    exact ⟨n, hn, met, hmet, hdecreasing, hlast hindex⟩

end SeamLint.Code.Tree
