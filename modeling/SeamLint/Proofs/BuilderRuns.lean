import SeamLint.Code.Builder
import SeamLint.Proofs.WellFormedTree

set_option autoImplicit false

/-! # What builders build

A builder is called again and again: nodes are added, spans are set, trees are built, and some
of the calls are refused. Its two tables make a tree at all times (`tree`), but a step that
finds one of the tables too short would be refused halfway. That never happens: the tables have
the same size and make a well-formed tree after any calls (`Sound`, `sound_run`). `Outcome` says
all that one call can come to then, so that a refused call leaves no trace (`eq_of_refused`).
-/

namespace SeamLint.Code

namespace Builder

/-! ## Calls -/

/-- A call to a builder. -/
inductive Call where
  | add (parent : Option Int) (facts : Facts)
  | setSpan (index : Int) (span : Span)
  | build

/-- What a builder replies to a call. -/
inductive Reply where
  | added (index : Nat)
  | spanSet
  | built (tree : Tree)
  | refused (fault : BuildFault)

/-- The step that a call asks for. -/
def Call.perform : Call → Build Reply
  | .add parent facts => return .added (← Builder.add parent facts)
  | .setSpan index span => do
      Builder.setSpan index span
      return .spanSet
  | .build => return .built (← Builder.build)

/-- The reply to a call, and the builder that the step leaves behind. -/
def call (b : Builder) (c : Call) : Reply × Builder :=
  match c.perform.run b with
  | .ok reply after => (reply, after)
  | .error fault after => (.refused fault, after)

/-- The replies to calls that are made one after another, and the builder after them. -/
def run (b : Builder) : List Call → List Reply × Builder
  | [] => ([], b)
  | c :: rest =>
      let first := b.call c
      let others := first.2.run rest
      (first.1 :: others.1, others.2)

/-! ## The tree of a builder -/

/-- A node with the children that are listed for it; without a list it has none. -/
def withList (b : Builder) (n : Node) : Node :=
  { n with children := (b.children[n.index]?).getD [] }

/-- The tree that the two tables make. -/
def tree (b : Builder) : Tree := ⟨b.path, (b.nodes.toList.map b.withList).toArray⟩

@[simp] theorem size_tree (b : Builder) : b.tree.size = b.size := by
  simp [tree, Tree.size, size]

theorem getElem?_tree (b : Builder) (i : Nat) :
    b.tree.nodes[i]? = (b.nodes[i]?).map b.withList := by
  simp [tree]

/-- **The invariant of builders**: there is a list of children for each node, and the two tables
make a well-formed tree. -/
structure Sound (b : Builder) : Prop where
  sizes : b.children.size = b.size
  wellFormed : b.tree.WellFormed

variable {b after : Builder}

theorem Sound.index (h : b.Sound) {i : Nat} {n : Node} (hn : b.nodes[i]? = some n) :
    n.index = i := by
  have htree := getElem?_tree b i
  rw [hn, Option.map_some] at htree
  have hindex := h.wellFormed.index _ _ htree
  exact hindex

theorem Sound.pos (h : b.Sound) : 0 < b.size := by
  rw [← size_tree]
  exact h.wellFormed.nonempty

/-! ## What one call can come to -/

/-- The second builder has a tree with one node more, the last child of `parent`, and all other
nodes are as they were. -/
structure Added (b grown : Builder) (parent : Nat) (facts : Facts) : Prop where
  path : grown.tree.path = b.tree.path
  sizes : grown.children.size = grown.size
  size : grown.tree.size = b.tree.size + 1
  new : grown.tree.nodes[b.tree.size]? =
    some { facts with index := b.tree.size, parent := some parent }
  old : ∀ i < b.tree.size, grown.tree.nodes[i]? =
    (b.tree.nodes[i]?).map fun n =>
      if i = parent then { n with children := n.children ++ [b.tree.size] } else n

/-- The second builder differs from the first in the span of node `place` only. -/
structure SpanSet (b changed : Builder) (place : Nat) (span : Span) : Prop where
  path : changed.path = b.path
  size : changed.size = b.size
  nodes : ∀ i, changed.nodes[i]? =
    (b.nodes[i]?).map fun n => if i = place then { n with span } else n
  children : changed.children = b.children

/-- What a call can come to: a node is added below one that is there, or its parent is not
there; the span of a node is set, where a negative number counts from the end, or there is no
such node; or the tree is handed out. -/
inductive Outcome (b : Builder) : Call → Reply → Builder → Prop
  | added {parent : Option Int} {facts : Facts} {place : Nat} {grown : Builder}
      (hplace : parent.getD 0 = place) (hlt : place < b.size)
      (hadded : Added b grown place facts) :
      Outcome b (.add parent facts) (.added b.size) grown
  | parentMissing {parent : Option Int} {facts : Facts}
      (hplace : ¬(0 ≤ parent.getD 0 ∧ parent.getD 0 < b.size)) :
      Outcome b (.add parent facts) (.refused (.missingParent (parent.getD 0))) b
  | spanSet {index : Int} {span : Span} {place : Nat} {changed : Builder}
      (hplace : index = place ∨ index < 0 ∧ index + b.size = place)
      (hlt : place < b.size) (hset : SpanSet b changed place span) :
      Outcome b (.setSpan index span) .spanSet changed
  | nodeMissing {index : Int} {span : Span}
      (hplace : ¬(-(b.size : Int) ≤ index ∧ index < b.size)) :
      Outcome b (.setSpan index span) (.refused .missingNode) b
  | built : Outcome b .build (.built b.tree) b

/-! ### Adding a node -/

/-- The builder with a node below an existing one. -/
def attach (b : Builder) (parent : Nat) (facts : Facts) : Builder where
  path := b.path
  nodes := b.nodes.push { facts with index := b.size, parent := some parent }
  children := (b.children.push []).modify parent (· ++ [b.size])

@[simp] theorem size_attach (b : Builder) (parent : Nat) (facts : Facts) :
    (b.attach parent facts).size = b.size + 1 := Array.size_push _

theorem run_placeFor {parent : Option Int} {place : Nat} (hplace : parent.getD 0 = place)
    (hlt : place < b.size) : (placeFor parent).run b = .ok (some place) b := by
  cases parent with
  | none =>
      obtain rfl : place = 0 := by simpa using hplace.symm
      simp [placeFor, hlt, -bind_pure_comp]
  | some index =>
      obtain rfl : index = place := by simpa using hplace
      simp [placeFor, hlt, -bind_pure_comp]

theorem run_placeFor_refused {parent : Option Int} (hpos : 0 < b.size)
    (hplace : ¬(0 ≤ parent.getD 0 ∧ parent.getD 0 < b.size)) :
    (placeFor parent).run b = .error (.missingParent (parent.getD 0)) b := by
  cases parent with
  | none => exact absurd ⟨Int.le_refl 0, Int.natCast_pos.mpr hpos⟩ hplace
  | some index =>
      have hindex : ¬(0 ≤ index ∧ index < b.size) := hplace
      simp only [placeFor, EStateM.run_bind, EStateM.run_get, Bool.and_eq_true, decide_eq_true_eq,
        if_neg hindex]
      rfl

/-- The list of the parent is there, so that nothing is refused once the tables have changed. -/
theorem run_add {parent : Option Int} {place : Nat} (facts : Facts)
    (hsizes : b.children.size = b.size) (hplace : parent.getD 0 = place) (hlt : place < b.size) :
    (add parent facts).run b = .ok b.size (b.attach place facts) := by
  have hlist : place < b.children.size + 1 := by omega
  simp [add, enlist, attach, run_placeFor hplace hlt, hlist, -bind_pure_comp]

theorem run_add_refused {parent : Option Int} (facts : Facts) (hpos : 0 < b.size)
    (hplace : ¬(0 ≤ parent.getD 0 ∧ parent.getD 0 < b.size)) :
    (add parent facts).run b = .error (.missingParent (parent.getD 0)) b := by
  simp [add, run_placeFor_refused hpos hplace]

theorem added_attach (h : b.Sound) {parent : Nat} (hlt : parent < b.size) (facts : Facts) :
    Added b (b.attach parent facts) parent facts := by
  have hsizes := h.sizes
  have hchildren (i : Nat) : (b.attach parent facts).children[i]? =
      ((b.children.push [])[i]?).map fun l => if parent = i then l ++ [b.size] else l := by
    rw [attach, Array.getElem?_modify]
    split <;> simp
  constructor
  · rfl
  · simp only [attach, size, Array.size_modify, Array.size_push]
    exact congrArg (· + 1) hsizes
  · simp
  · have hnew : (b.attach parent facts).nodes[b.size]? =
        some { facts with index := b.size, parent := some parent } := Array.getElem?_push_size
    have hlist : (b.children.push [])[b.size]? = some [] := by
      rw [← hsizes]
      exact Array.getElem?_push_size
    rw [size_tree, getElem?_tree, hnew, Option.map_some]
    simp [withList, hchildren, hlist, Nat.ne_of_lt hlt]
  · intro i hi
    rw [size_tree] at hi ⊢
    have hold : (b.attach parent facts).nodes[i]? = b.nodes[i]? := by
      exact (Array.getElem?_push ..).trans (if_neg (Nat.ne_of_lt hi))
    rw [getElem?_tree, getElem?_tree, hold, Option.map_map]
    -- an old node keeps its list, which gets the new index if it is that of the parent
    refine Option.map_congr fun n hn => ?_
    have hlist : (b.children.push [])[i]? = b.children[i]? := by
      rw [Array.getElem?_push, if_neg (by omega)]
    have hsome : b.children[i]? = some b.children[i] := Array.getElem?_eq_getElem (by omega)
    simp only [Function.comp_apply, withList, h.index hn, hchildren, hlist, hsome]
    by_cases hparent : i = parent
    · simp [hparent]
    · simp [hparent, Ne.symm hparent]

/-! ### Setting a span -/

theorem place?_eq_some_iff {index : Int} {place : Nat} :
    b.place? index = some place ↔
      place < b.size ∧ (index = place ∨ index < 0 ∧ index + b.size = place) := by
  simp only [place?, Bool.and_eq_true, decide_eq_true_iff, Option.ite_none_right_eq_some,
    Option.some.injEq]
  by_cases hneg : index < 0
  · rw [if_pos hneg]
    omega
  · rw [if_neg hneg]
    omega

theorem place?_eq_none_iff {index : Int} :
    b.place? index = none ↔ ¬(-(b.size : Int) ≤ index ∧ index < b.size) := by
  simp only [place?, Bool.and_eq_true, decide_eq_true_iff, ite_eq_right_iff, reduceCtorEq,
    imp_false]
  by_cases hneg : index < 0
  · rw [if_pos hneg]
    omega
  · rw [if_neg hneg]
    omega

/-- The builder with another span at a node. -/
def withSpan (b : Builder) (place : Nat) (span : Span) : Builder :=
  { b with nodes := b.nodes.modify place fun n => { n with span } }

theorem run_setSpan {index : Int} {place : Nat} (h : b.place? index = some place) (span : Span) :
    (setSpan index span).run b = .ok () (b.withSpan place span) := by
  simp [setSpan, h, withSpan]

theorem run_setSpan_refused {index : Int} (h : b.place? index = none) (span : Span) :
    (setSpan index span).run b = .error .missingNode b := by
  simp [setSpan, h]

theorem spanSet_withSpan (b : Builder) (place : Nat) (span : Span) :
    SpanSet b (b.withSpan place span) place span := by
  refine ⟨rfl, Array.size_modify, fun i => ?_, rfl⟩
  rw [withSpan, Array.getElem?_modify]
  by_cases hi : place = i
  · simp [hi]
  · simp [hi, Ne.symm hi]

/-- The trees differ in the span of the node only, too. -/
theorem SpanSet.getElem?_tree {place : Nat} {span : Span} (h : SpanSet b after place span)
    (i : Nat) :
    after.tree.nodes[i]? =
      (b.tree.nodes[i]?).map fun n => if i = place then { n with span } else n := by
  rw [Builder.getElem?_tree, Builder.getElem?_tree, h.nodes, Option.map_map, Option.map_map]
  refine congrArg (Option.map · _) (funext fun n => ?_)
  simp only [Function.comp_apply, withList, h.children]
  split <;> rfl

/-! ### Building the tree -/

theorem joined_eq (h : b.Sound) {n : Node} (hn : n ∈ b.nodes.toList) :
    b.joined n = .ok (b.withList n) := by
  obtain ⟨i, hi⟩ := List.mem_iff_getElem?.mp hn
  rw [Array.getElem?_toList] at hi
  have hlt : n.index < b.children.size := by
    rw [h.index hi, h.sizes]
    exact (Array.getElem?_eq_some_iff.mp hi).1
  simp [joined, withList, Array.getElem?_eq_getElem hlt]

/-- Steps that all give a result give the list of the results. -/
theorem mapM_eq_ok {ε α β : Type} {next : α → Except ε β} {f : α → β} {as : List α}
    (h : ∀ a ∈ as, next a = .ok (f a)) : as.mapM next = .ok (as.map f) := by
  induction as with
  | nil => rfl
  | cons a as ih =>
      rw [List.mapM_cons, h a List.mem_cons_self,
        ih fun a ha => h a (List.mem_cons_of_mem _ ha)]
      rfl

theorem run_build (h : b.Sound) : build.run b = .ok b.tree b := by
  simp only [build, EStateM.run_bind, EStateM.run_get, mapM_eq_ok fun n hn => joined_eq h hn]
  rfl

/-! ### Any call -/

/-- **Every call to a sound builder comes to one of the outcomes.** -/
theorem outcome_call (h : b.Sound) (c : Call) : Outcome b c (b.call c).1 (b.call c).2 := by
  cases c with
  | add parent facts =>
      by_cases hplace : 0 ≤ parent.getD 0 ∧ parent.getD 0 < b.size
      · have hnat : parent.getD 0 = (parent.getD 0).toNat := (Int.toNat_of_nonneg hplace.1).symm
        have hlt : (parent.getD 0).toNat < b.size := by omega
        simp only [call, Call.perform, EStateM.run_bind, run_add facts h.sizes hnat hlt]
        exact .added hnat hlt (added_attach h hlt facts)
      · simp only [call, Call.perform, EStateM.run_bind, run_add_refused facts h.pos hplace]
        exact .parentMissing hplace
  | setSpan index span =>
      cases hplace : b.place? index with
      | some place =>
          simp only [call, Call.perform, EStateM.run_bind, run_setSpan hplace]
          obtain ⟨hlt, hindex⟩ := place?_eq_some_iff.mp hplace
          exact .spanSet hindex hlt (spanSet_withSpan b place span)
      | none =>
          simp only [call, Call.perform, EStateM.run_bind, run_setSpan_refused hplace]
          exact .nodeMissing (place?_eq_none_iff.mp hplace)
  | build =>
      simp only [call, Call.perform, EStateM.run_bind, run_build h]
      exact .built

/-- A refused call leaves a sound builder as it was. -/
theorem eq_of_refused (h : b.Sound) {c : Call} {fault : BuildFault}
    (hrefused : (b.call c).1 = .refused fault) : (b.call c).2 = b := by
  have houtcome := outcome_call h c
  generalize (b.call c).2 = after at houtcome
  rw [hrefused] at houtcome
  cases houtcome with
  | parentMissing => rfl
  | nodeMissing => rfl

/-! ## The invariant -/

theorem parentOf_added {parent : Nat} {facts : Facts} (h : Added b after parent facts) (j : Nat) :
    after.tree.nodes[j]?.bind Node.parent =
      if j = b.tree.size then some parent else b.tree.nodes[j]?.bind Node.parent := by
  rcases Nat.lt_trichotomy j b.tree.size with hlt | rfl | hgt
  · rw [if_neg (Nat.ne_of_lt hlt), h.old j hlt, Option.bind_map]
    refine congrArg (Option.bind _) (funext fun n => ?_)
    simp only [Function.comp_apply]
    split <;> rfl
  · rw [if_pos rfl, h.new]
    rfl
  · -- beyond both trees there is no node and so no parent
    have hsize := h.size
    have hold : b.tree.nodes[j]? = none := Array.getElem?_eq_none (Nat.le_of_lt hgt)
    have hnew : after.tree.nodes[j]? = none :=
      Array.getElem?_eq_none (show after.tree.size ≤ j by omega)
    rw [if_neg (Nat.ne_of_gt hgt), hold, hnew]

/-- The nodes that name `i` as their parent, once a node is added below `parent`. -/
theorem filter_parentOf_added {parent : Nat} {facts : Facts} (h : Added b after parent facts)
    (i : Nat) :
    ((List.range after.tree.size).filter fun j =>
        after.tree.nodes[j]?.bind Node.parent = some i) =
      ((List.range b.tree.size).filter fun j => b.tree.nodes[j]?.bind Node.parent = some i) ++
        if parent = i then [b.tree.size] else [] := by
  have hold : ((List.range b.tree.size).filter fun j =>
        after.tree.nodes[j]?.bind Node.parent = some i) =
      (List.range b.tree.size).filter fun j => b.tree.nodes[j]?.bind Node.parent = some i := by
    refine List.filter_congr fun j hj => ?_
    rw [parentOf_added h, if_neg (Nat.ne_of_lt (List.mem_range.mp hj))]
  rw [h.size, List.range_succ, List.filter_append, hold, List.filter_singleton]
  rw [parentOf_added h, if_pos rfl]
  by_cases hi : parent = i
  · simp [hi]
  · simp [hi]

/-- A node of the new tree is the new one, or an old one that may have got a child. -/
theorem Added.new_or_old {parent : Nat} {facts : Facts} (h : Added b after parent facts) {i : Nat}
    {n : Node} (hn : after.tree.nodes[i]? = some n) :
    (i = b.tree.size ∧ n = { facts with index := b.tree.size, parent := some parent }) ∨
    (i < b.tree.size ∧ ∃ m, b.tree.nodes[i]? = some m ∧
      n = if i = parent then { m with children := m.children ++ [b.tree.size] } else m) := by
  have hi : i < after.tree.size := Tree.WellFormed.lt_size hn
  have hsize := h.size
  rcases Nat.lt_or_ge i b.tree.size with hi' | hi'
  · rw [h.old i hi'] at hn
    obtain ⟨m, hm, rfl⟩ := Option.map_eq_some_iff.mp hn
    exact Or.inr ⟨hi', m, hm, rfl⟩
  · obtain rfl : i = b.tree.size := by omega
    rw [h.new] at hn
    exact Or.inl ⟨rfl, (Option.some.inj hn).symm⟩

/-- Nobody names a node that is not there yet as a parent. -/
theorem filter_parentOf_size (hwf : b.tree.WellFormed) :
    ((List.range b.tree.size).filter fun j =>
      b.tree.nodes[j]?.bind Node.parent = some b.tree.size) = [] := by
  refine List.filter_eq_nil_iff.mpr fun j hj hparent => ?_
  obtain ⟨m, hm, hm'⟩ := Option.bind_eq_some_iff.mp (decide_eq_true_iff.mp hparent)
  have hbefore := hwf.parent_lt hm hm'
  have hrange := List.mem_range.mp hj
  omega

/-- **Adding a node keeps a tree well-formed.** -/
theorem wellFormed_added {parent : Nat} {facts : Facts} (hwf : b.tree.WellFormed)
    (hlt : parent < b.size) (h : Added b after parent facts) : after.tree.WellFormed := by
  rw [← size_tree] at hlt
  have hpos := hwf.nonempty
  have hsize := h.size
  constructor
  · omega
  · intro i n hn
    rcases h.new_or_old hn with ⟨rfl, rfl⟩ | ⟨-, m, hm, rfl⟩
    · rfl
    · have hindex := hwf.index i m hm
      split
      · exact hindex
      · exact hindex
  · intro n hn
    rcases h.new_or_old hn with ⟨hzero, -⟩ | ⟨-, m, hm, rfl⟩
    · omega
    · have hroot := hwf.root m hm
      split
      · exact hroot
      · exact hroot
  · intro i n hn hi
    rcases h.new_or_old hn with ⟨rfl, rfl⟩ | ⟨-, m, hm, rfl⟩
    · exact ⟨parent, rfl, hlt⟩
    · have hparent := hwf.parent i m hm hi
      split
      · exact hparent
      · exact hparent
  · intro i n hn
    rw [filter_parentOf_added h]
    rcases h.new_or_old hn with ⟨rfl, rfl⟩ | ⟨-, m, hm, rfl⟩
    · rw [filter_parentOf_size hwf, if_neg (Nat.ne_of_lt hlt)]
      rfl
    · rw [← hwf.children i m hm]
      by_cases hip : i = parent
      · rw [if_pos hip, if_pos hip.symm]
      · rw [if_neg hip, if_neg (Ne.symm hip), List.append_nil]

/-- Setting a span keeps a tree well-formed: no link depends on a span. -/
theorem wellFormed_spanSet {place : Nat} {span : Span} (hwf : b.tree.WellFormed)
    (h : SpanSet b after place span) : after.tree.WellFormed := by
  have hcases (i : Nat) (n : Node) (hn : after.tree.nodes[i]? = some n) :
      ∃ m, b.tree.nodes[i]? = some m ∧ n = if i = place then { m with span } else m := by
    rw [h.getElem?_tree i] at hn
    obtain ⟨m, hm, rfl⟩ := Option.map_eq_some_iff.mp hn
    exact ⟨m, hm, rfl⟩
  have hsize : after.tree.size = b.tree.size := by rw [size_tree, size_tree, h.size]
  have hparentOf (j : Nat) : after.tree.nodes[j]?.bind Node.parent =
      b.tree.nodes[j]?.bind Node.parent := by
    rw [h.getElem?_tree j, Option.bind_map]
    refine congrArg (Option.bind _) (funext fun n => ?_)
    simp only [Function.comp_apply]
    split <;> rfl
  constructor
  · rw [hsize]
    exact hwf.nonempty
  · intro i n hn
    obtain ⟨m, hm, rfl⟩ := hcases i n hn
    have hindex := hwf.index i m hm
    split <;> exact hindex
  · intro n hn
    obtain ⟨m, hm, rfl⟩ := hcases 0 n hn
    have hroot := hwf.root m hm
    split <;> exact hroot
  · intro i n hn hi
    obtain ⟨m, hm, rfl⟩ := hcases i n hn
    have hparent := hwf.parent i m hm hi
    split <;> exact hparent
  · intro i n hn
    obtain ⟨m, hm, rfl⟩ := hcases i n hn
    simp only [hsize, hparentOf]
    rw [← hwf.children i m hm]
    split <;> rfl

/-- **One call keeps a builder sound.** -/
theorem sound_call (h : b.Sound) (c : Call) : (b.call c).2.Sound := by
  have houtcome := outcome_call h c
  generalize (b.call c).1 = reply, (b.call c).2 = after at houtcome
  cases houtcome with
  | added hplace hlt hadded => exact ⟨hadded.sizes, wellFormed_added h.wellFormed hlt hadded⟩
  | parentMissing hplace => exact h
  | spanSet hplace hlt hset =>
      refine ⟨?_, wellFormed_spanSet h.wellFormed hset⟩
      rw [hset.children, hset.size, h.sizes]
  | nodeMissing hplace => exact h
  | built => exact h

/-! ## Whole runs -/

theorem sound_start (path : String) : (start path).Sound := by
  have hcases (i : Nat) (n : Node) (hn : (start path).tree.nodes[i]? = some n) :
      i = 0 ∧ n = { rootFacts with index := 0 } := by
    have hi : i < 1 := Tree.WellFormed.lt_size hn
    obtain rfl : i = 0 := by omega
    exact ⟨rfl, (Option.some.inj hn).symm⟩
  refine ⟨rfl, ?_⟩
  constructor
  · exact Nat.one_pos
  · intro i n hn
    obtain ⟨rfl, rfl⟩ := hcases i n hn
    rfl
  · intro n hn
    obtain ⟨-, rfl⟩ := hcases 0 n hn
    exact ⟨rfl, rfl⟩
  · intro i n hn hi
    obtain ⟨rfl, rfl⟩ := hcases i n hn
    omega
  · intro i n hn
    obtain ⟨rfl, rfl⟩ := hcases i n hn
    rfl

/-- **A builder is sound after any calls**, and every tree that it has handed out is
well-formed. -/
theorem sound_run (h : b.Sound) (calls : List Call) :
    (b.run calls).2.Sound ∧ ∀ t, .built t ∈ (b.run calls).1 → t.WellFormed := by
  induction calls generalizing b with
  | nil => exact ⟨h, fun t ht => nomatch ht⟩
  | cons c calls ih =>
      obtain ⟨hlast, hbuilt⟩ := ih (sound_call h c)
      refine ⟨hlast, fun t ht => ?_⟩
      rcases List.mem_cons.mp ht with hfirst | hrest
      · -- only `build` hands out a tree, the one that the tables make
        have houtcome := outcome_call h c
        generalize (b.call c).2 = after at houtcome
        rw [← hfirst] at houtcome
        cases houtcome with
        | built => exact h.wellFormed
      · exact hbuilt t hrest

/-- The builder is one that calls lead to. -/
def IsReachable (b : Builder) : Prop := ∃ path calls, ((start path).run calls).2 = b

theorem IsReachable.sound (h : b.IsReachable) : b.Sound := by
  obtain ⟨path, calls, rfl⟩ := h
  exact (sound_run (sound_start path) calls).1

/-- Building the tree gives `t` and leaves the builder as it is. -/
def Builds (b : Builder) (t : Tree) : Prop := b.call .build = (.built t, b)

theorem Sound.builds (h : b.Sound) : b.Builds b.tree := by
  simp only [Builds, call, Call.perform, EStateM.run_bind, run_build h]
  rfl

theorem Builds.unique {t t' : Tree} (h : b.Builds t) (h' : b.Builds t') : t = t' :=
  Reply.built.inj (congrArg Prod.fst (h.symm.trans h'))

/-! ## The trees of builders -/

/-- **Builders build arenas.** Whatever calls are made, some of them refused, every tree that
is built is well-formed: its nodes know their indices, node zero is a compilation unit without
a parent, and every other node has a parent before it. The children of a node are the nodes
that name it as their parent, in order; so every node but the root is a child of one node and
once, and the root is reached from every node. After any calls a tree can be built, and one more
call comes to one of the outcomes: if it is refused the two tables stay as they were, and setting
a span changes nothing else. -/
theorem builds_are_arenas (path : String) (calls : List Call) :
    (∀ t, .built t ∈ ((start path).run calls).1 →
      t.WellFormed ∧
      (∀ p n, t.nodes[p]? = some n →
        n.children.Pairwise (· < ·) ∧ ∀ j, j ∈ n.children ↔ t.IsParent j p) ∧
      (t.nodes.toList.flatMap Node.children).Perm (List.range' 1 (t.size - 1)) ∧
      ∀ i < t.size, Relation.ReflTransGen t.IsParent i 0) ∧
    ∀ b, ((start path).run calls).2 = b →
      (∃ t, b.Builds t) ∧
      ∀ c : Call,
        Outcome b c (b.call c).1 (b.call c).2 ∧
        (∀ fault, (b.call c).1 = .refused fault → (b.call c).2 = b) ∧
        ∀ index span, c = .setSpan index span → (b.call c).1 = .spanSet →
          ∃ place : Nat, (index = place ∨ index < 0 ∧ index + b.size = place) ∧
            SpanSet b (b.call c).2 place span := by
  obtain ⟨hsound, hbuilt⟩ := sound_run (sound_start path) calls
  refine ⟨fun t ht => ?_, ?_⟩
  · have hwf : t.WellFormed := hbuilt t ht
    refine ⟨hwf, fun p n hn => ⟨hwf.children_increasing hn, fun j => hwf.mem_children_iff hn⟩,
      hwf.children_perm, fun i hi => hwf.reaches_root hi⟩
  · rintro b rfl
    refine ⟨⟨_, hsound.builds⟩, fun c => ⟨outcome_call hsound c, fun fault => eq_of_refused hsound,
      fun index span hc hreply => ?_⟩⟩
    have houtcome := outcome_call hsound c
    generalize (Builder.call _ c).2 = after at houtcome ⊢
    rw [hreply, hc] at houtcome
    cases houtcome with
    | spanSet hplace hlt hset => exact ⟨_, hplace, hset⟩

/-- A builder to which a node is added, one below a node that is not there, and one below the
first, with spans that are set and not set in between. -/
theorem builds_are_arenas_mixed :
    let calls : List Call :=
      [.add none { kind := .classDeclaration }, .add (some 7) { kind := .method }, .build,
       .setSpan (-1) ⟨3, 1, 9, 2⟩, .setSpan 5 {}, .add (some 1) { kind := .method }, .build]
    let replies := ((start "src/App/Service.cs").run calls).1
    replies[1]? = some (.refused (.missingParent 7)) ∧ replies[4]? = some (.refused .missingNode) ∧
    ∃ t, replies[6]? = some (.built t) ∧ t.size = 3 ∧ t.WellFormed ∧
      (t.nodes.toList.flatMap Node.children).Perm [1, 2] ∧
      Relation.ReflTransGen t.IsParent 2 0 := by
  intro calls replies
  obtain ⟨t, hreply, hsize⟩ : ∃ t, replies[6]? = some (.built t) ∧ t.size = 3 := ⟨_, rfl, rfl⟩
  have hbuilt : .built t ∈ replies := List.mem_of_getElem? hreply
  obtain ⟨hwf, -, hperm, hreach⟩ := (builds_are_arenas "src/App/Service.cs" calls).1 t hbuilt
  rw [hsize] at hperm
  exact ⟨rfl, rfl, t, hreply, hsize, hwf, hperm, hreach 2 (by omega)⟩

end Builder

end SeamLint.Code
