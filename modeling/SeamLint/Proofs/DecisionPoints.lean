import Mathlib.Data.Set.Card
import Mathlib.Data.Set.Finite.Lattice
import Mathlib.Order.CompletePartialOrder
import Mathlib.Tactic.Tauto
import SeamLint.Proofs.Ancestry
import SeamLint.Proofs.DecisionStack

set_option autoImplicit false

/-! # Decision points and the units they count for

Complexity is found by a walk down from a code unit. Here it is told without the walk: a node
below the unit counts if it is a decision point and no nested function and no parameter of the
unit is on the way to it (`IsOwnDecision`). In a well-formed tree the walk ends, and it counts
these nodes and no others (`complexity_eq`). Unless a member is declared inside a code unit, a
node that counts for a unit has no unit nearer above it (`isOwnDecision_iff`), so the complexities
of all units together count every decision point once (`decisions_counted_once`).
-/

namespace SeamLint.Measure

open SeamLint.Code SeamLint.Scan

/-! ## What counts -/

/-- The node is a decision point: a branch or a loop, a label or an arm that does not match
everything, or an operator that may leave out its right side. -/
def IsDecision (f : Facts) : Prop :=
  f.kind = .ifStatement ∨ f.kind = .forLoop ∨ f.kind = .foreachLoop ∨ f.kind = .whileLoop ∨
  f.kind = .doLoop ∨ f.kind = .catchClause ∨ f.kind = .conditional ∨
  ((f.kind = .caseLabel ∨ f.kind = .switchArm) ∧ f.isDiscard = false) ∨
  (f.kind = .binary ∧ ∃ operator ∈ ["&&", "||", "??"], f.operator = some operator)

/-- The kinds of functions that are written inside other code. -/
def IsNestedFunction (kind : Kind) : Prop :=
  kind = .lambda ∨ kind = .localFunction ∨ kind = .anonymousMethod

/-- The kinds of nodes that have a complexity. -/
def IsCodeUnit (kind : Kind) : Prop :=
  kind = .method ∨ kind = .constructor ∨ kind = .accessor ∨ IsNestedFunction kind

/-- On the way down from `u` to `d`, the first node is a parameter. -/
def IsThroughParameter (t : Tree) (u d : Node) : Prop :=
  ∃ c, t.IsOnWay u d c ∧ c.parent = some u.index ∧ c.kind = .parameter

/-- The node `d` is a decision point in the own code of `u`. -/
structure IsOwnDecision (t : Tree) (u d : Node) : Prop where
  mem_nodes : d ∈ t.nodes
  isBelow : t.IsAncestor u d
  isDecision : IsDecision d.toFacts
  notNested : ∀ m, t.IsOnWay u d m → ¬IsNestedFunction m.kind
  notParameter : ¬IsThroughParameter t u d

instance : DecidablePred IsNestedFunction := fun _ => inferInstanceAs (Decidable (_ ∨ _))

instance : DecidablePred IsCodeUnit := fun _ => inferInstanceAs (Decidable (_ ∨ _))

theorem isNestedUnit_iff (kind : Kind) : kind.isNestedUnit = true ↔ IsNestedFunction kind := by
  cases kind <;> decide

theorem isCodeUnit_iff (kind : Kind) : kind.isCodeUnit = true ↔ IsCodeUnit kind := by
  cases kind <;> decide

theorem decisionWeight_le_one (f : Facts) : decisionWeight f ≤ 1 := by
  unfold decisionWeight
  repeat' split
  all_goals decide

theorem decisionWeight_pos_iff {f : Facts} : 0 < decisionWeight f ↔ IsDecision f := by
  obtain ⟨kind, span, name, nameSpan, operator, modifiers, isDiscard, symbol⟩ := f
  cases kind with
  | binary =>
      cases operator with
      | none => simp [decisionWeight, IsDecision]
      | some operator =>
          by_cases hmem : operator = "&&" ∨ operator = "||" ∨ operator = "??"
          · simp [decisionWeight, IsDecision, shortCircuitOperators, hmem]
          · simp [decisionWeight, IsDecision, shortCircuitOperators, hmem]
  | caseLabel => cases isDiscard <;> simp [decisionWeight, IsDecision]
  | switchArm => cases isDiscard <;> simp [decisionWeight, IsDecision]
  | _ => simp [decisionWeight, IsDecision]

/-- A node weighs one if it is a decision point, and nothing if it is none. -/
theorem decisionWeight_eq (f : Facts) [Decidable (IsDecision f)] :
    decisionWeight f = if IsDecision f then 1 else 0 := by
  have hle := decisionWeight_le_one f
  split
  · next hdecision =>
      have hpos := decisionWeight_pos_iff.mpr hdecision
      omega
  · next hdecision =>
      have hzero : ¬0 < decisionWeight f := fun hpos => hdecision (decisionWeight_pos_iff.mp hpos)
      omega

theorem not_isCodeUnit_of_isDecision {f : Facts} (h : IsDecision f) : ¬IsCodeUnit f.kind := by
  intro hunit
  rcases hunit with hkind | hkind | hkind | hkind | hkind | hkind <;> simp [IsDecision, hkind] at h

/-! ## Sums of counts -/

/-- The sum of the sizes of finite sets is the size of their union, if no two have anything in
common. -/
theorem sumOver_eq_ncard {ε : Type} {measure : Node → Except ε Nat}
    {counted : Node → Set Node} {nodes : List Node}
    (hmeasure : ∀ n ∈ nodes, measure n = .ok (counted n).ncard)
    (hfinite : ∀ n ∈ nodes, (counted n).Finite)
    (hdisjoint : nodes.Pairwise fun a b => Disjoint (counted a) (counted b)) :
    sumOver measure nodes = .ok (⋃ n ∈ nodes, counted n).ncard := by
  induction nodes with
  | nil => simp [sumOver]
  | cons n rest ih =>
      obtain ⟨hfirst, hrest⟩ := List.forall_mem_cons.mp hmeasure
      obtain ⟨hfinite, hfinites⟩ := List.forall_mem_cons.mp hfinite
      obtain ⟨hapart, hdisjoint⟩ := List.pairwise_cons.mp hdisjoint
      have hunion : (⋃ m ∈ n :: rest, counted m) = counted n ∪ ⋃ m ∈ rest, counted m := by
        ext d
        simp
      have hlater : (⋃ m ∈ rest, counted m).Finite :=
        Set.Finite.biUnion rest.finite_toSet hfinites
      have hdisjoint' : Disjoint (counted n) (⋃ m ∈ rest, counted m) :=
        Set.disjoint_iUnion₂_right.mpr hapart
      rw [hunion, Set.ncard_union_eq hdisjoint' hfinite hlater, sumOver, hfirst,
        ih hrest hfinites hdisjoint]
      rfl

theorem finite_of_forall_mem {t : Tree} {counted : Set Node} (h : ∀ d ∈ counted, d ∈ t.nodes) :
    counted.Finite :=
  t.nodes.toList.finite_toSet.subset fun d hd => Array.mem_toList_iff.mpr (h d hd)

/-! ## The walk down -/

/-- The decision points that a walk down from `n` meets: those at `n` and below it with no nested
function on the way. -/
def openDecisions (t : Tree) (n : Node) : Set Node :=
  {d | d ∈ t.nodes ∧ t.Contains n d ∧ IsDecision d.toFacts ∧
    ∀ m, t.Contains n m → t.Contains m d → ¬IsNestedFunction m.kind}

theorem finite_openDecisions (t : Tree) (n : Node) : (openDecisions t n).Finite :=
  finite_of_forall_mem fun _ hd => hd.1

theorem openDecisions_of_nested {t : Tree} {n : Node} (h : IsNestedFunction n.kind) :
    openDecisions t n = ∅ := by
  ext d
  refine iff_of_false ?_ (Set.notMem_empty d)
  rintro ⟨-, hcontains, -, hopen⟩
  exact hopen n (Or.inl rfl) hcontains h

section WellFormed

variable {t : Tree} {n u d : Node} {children : List Node} (h : t.WellFormed) (hn : n ∈ t.nodes)
  (hchildren : ∀ m, m ∈ children ↔ m ∈ t.nodes ∧ m.parent = some n.index)

include h hn hchildren

/-- The decision points at a node that is no nested function are the node itself, if it is one,
and those at its children. -/
theorem openDecisions_eq (hnested : ¬IsNestedFunction n.kind) :
    openDecisions t n = {d | d = n ∧ IsDecision n.toFacts} ∪ ⋃ c ∈ children, openDecisions t c := by
  ext d
  simp only [Set.mem_union, Set.mem_iUnion, Set.mem_ofPred_eq, exists_prop]
  constructor
  · rintro ⟨hd, rfl | hbelow, hdecision, hopen⟩
    · exact Or.inl ⟨rfl, hdecision⟩
    · obtain ⟨c, hc, hparent, hcd⟩ := (h.isAncestor_iff_exists_child hn hd).mp hbelow
      have hnc : t.Contains n c := Or.inr ((h.isAncestor_iff_exists_child hn hc).mpr
        ⟨c, hc, hparent, Or.inl rfl⟩)
      refine Or.inr ⟨c, (hchildren c).mpr ⟨hc, hparent⟩, hd, hcd, hdecision, fun m hcm hmd => ?_⟩
      exact hopen m (hnc.trans hcm) hmd
  · rintro (⟨rfl, hdecision⟩ | ⟨c, hc, hd, hcd, hdecision, hopen⟩)
    · refine ⟨hn, Or.inl rfl, hdecision, fun m hdm hmd => ?_⟩
      -- nothing else both contains the node and is contained in it
      rcases hdm with rfl | hdm
      · exact hnested
      · have hlt := h.index_lt_of_isAncestor hdm
        have hle := h.index_le_of_contains hmd
        omega
    · obtain ⟨hc, hparent⟩ := (hchildren c).mp hc
      have hnd : t.IsAncestor n d :=
        (h.isAncestor_iff_exists_child hn hd).mpr ⟨c, hc, hparent, hcd⟩
      refine ⟨hd, Or.inr hnd, hdecision, fun m hnm hmd => ?_⟩
      rcases hnm with rfl | hnm
      · exact hnested
      · exact hopen m (h.contains_of_isOnWay hn hc hd hparent hcd ⟨hnm, hmd⟩) hmd

omit hchildren in
/-- What is in a child is not in its siblings. -/
theorem eq_of_contains_of_contains {c c' : Node} (hc : c ∈ t.nodes) (hc' : c' ∈ t.nodes)
    (hd : d ∈ t.nodes) (hparent : c.parent = some n.index) (hparent' : c'.parent = some n.index)
    (hcd : t.Contains c d) (hcd' : t.Contains c' d) : c = c' := by
  rcases h.contains_total hd hcd hcd' with hcc | hcc
  · exact h.eq_of_contains_of_parent hn hc' hparent hc hparent' hcc
  · exact (h.eq_of_contains_of_parent hn hc hparent' hc' hparent hcc).symm

theorem disjoint_openDecisions (hnodup : children.Nodup) :
    children.Pairwise fun a b => Disjoint (openDecisions t a) (openDecisions t b) := by
  refine hnodup.imp_of_mem fun ha hb hne => Set.disjoint_left.mpr fun d hda hdb => ?_
  obtain ⟨ha, hparent⟩ := (hchildren _).mp ha
  obtain ⟨hb, hparent'⟩ := (hchildren _).mp hb
  exact hne (eq_of_contains_of_contains h hn ha hb hda.1 hparent hparent' hda.2.1 hdb.2.1)

theorem ncard_openDecisions (hnested : ¬IsNestedFunction n.kind) :
    (openDecisions t n).ncard =
      decisionWeight n.toFacts + (⋃ c ∈ children, openDecisions t c).ncard := by
  have hbelow : (⋃ c ∈ children, openDecisions t c).Finite :=
    Set.Finite.biUnion children.finite_toSet fun c _ => finite_openDecisions t c
  have hdisjoint : Disjoint {d | d = n ∧ IsDecision n.toFacts}
      (⋃ c ∈ children, openDecisions t c) := by
    refine Set.disjoint_left.mpr ?_
    rintro _ ⟨rfl, -⟩ hmem
    obtain ⟨c, hc, -, hcontains, -⟩ := Set.mem_iUnion₂.mp hmem
    have hlt := h.parent_lt (h.getElem?_index ((hchildren c).mp hc).1) ((hchildren c).mp hc).2
    have hle := h.index_le_of_contains hcontains
    omega
  have hself : {d | d = n ∧ IsDecision n.toFacts}.ncard = decisionWeight n.toFacts := by
    classical
    rw [decisionWeight_eq]
    by_cases hdecision : IsDecision n.toFacts
    · simp [hdecision]
    · simp [hdecision]
  have hfinite : {d | d = n ∧ IsDecision n.toFacts}.Finite :=
    (Set.finite_singleton n).subset fun d hd => hd.1
  rw [openDecisions_eq h hn hchildren hnested, Set.ncard_union_eq hdisjoint hfinite hbelow, hself]

end WellFormed

section WellFormed

variable {t : Tree} {n u d : Node}

/-- **The walk down ends, and counts the decision points that it meets**: below a node there are
no more levels than nodes after it, so that any greater depth gives the same. -/
theorem decisionsBelow_eq (h : t.WellFormed) (hn : n ∈ t.nodes) {depth : Nat}
    (hdepth : t.size - n.index ≤ depth) :
    decisionsBelow t depth n = .ok (openDecisions t n).ncard := by
  induction depth generalizing n with
  | zero =>
      have hlt := h.index_lt hn
      omega
  | succ depth ih =>
      by_cases hnested : n.kind.isNestedUnit = true
      · rw [decisionsBelow, if_pos hnested, openDecisions_of_nested ((isNestedUnit_iff _).mp hnested),
          Set.ncard_empty]
      · obtain ⟨children, hfound, hnodup, hchildren⟩ := h.gives_children hn
        have hbelow : sumOver (decisionsBelow t depth) children =
            .ok (⋃ c ∈ children, openDecisions t c).ncard := by
          refine sumOver_eq_ncard (fun c hc => ?_) (fun c _ => finite_openDecisions t c)
            (disjoint_openDecisions h hn hchildren hnodup)
          obtain ⟨hmem, hparent⟩ := (hchildren c).mp hc
          have hlt := h.parent_lt (h.getElem?_index hmem) hparent
          exact ih hmem (by omega)
        rw [decisionsBelow, if_neg hnested, hfound,
          ncard_openDecisions h hn hchildren fun hkind => hnested ((isNestedUnit_iff _).mpr hkind)]
        simp only [hbelow]
        rfl

/-- **The walk with a stack ends, too**: a node on top of it is worked off, and what is counted
there is added to the score. -/
theorem tally_eq (h : t.WellFormed) (hn : n ∈ t.nodes) (score : Nat) (rest : List Node) :
    tally t score (n :: rest) = tally t (score + (openDecisions t n).ncard) rest := by
  have hsettles := settles_decisionsBelow t t.size n
  rw [decisionsBelow_eq h hn (Nat.sub_le _ _)] at hsettles
  exact hsettles score rest

/-! ## The complexity of a unit -/

/-- The own decision points of a node are those that walks from its children meet, apart from
its parameters. -/
theorem setOf_isOwnDecision (h : t.WellFormed) (hu : u ∈ t.nodes) {children : List Node}
    (hchildren : ∀ m, m ∈ children ↔ m ∈ t.nodes ∧ m.parent = some u.index) :
    {d | IsOwnDecision t u d} =
      ⋃ c ∈ children.filter fun child => child.kind ≠ .parameter, openDecisions t c := by
  ext d
  simp only [Set.mem_ofPred_eq, Set.mem_iUnion, List.mem_filter, decide_eq_true_iff, exists_prop]
  constructor
  · rintro ⟨hd, hbelow, hdecision, hnested, hparameter⟩
    obtain ⟨c, hc, hparent, hcd⟩ := (h.isAncestor_iff_exists_child hu hd).mp hbelow
    have huc : t.IsAncestor u c :=
      (h.isAncestor_iff_exists_child hu hc).mpr ⟨c, hc, hparent, Or.inl rfl⟩
    refine ⟨c, ⟨(hchildren c).mpr ⟨hc, hparent⟩, fun hkind => ?_⟩, hd, hcd, hdecision, ?_⟩
    · exact hparameter ⟨c, ⟨huc, hcd⟩, hparent, hkind⟩
    · exact fun m hcm hmd => hnested m ⟨huc.trans_contains hcm, hmd⟩
  · rintro ⟨c, ⟨hc, hkind⟩, hd, hcd, hdecision, hopen⟩
    obtain ⟨hc, hparent⟩ := (hchildren c).mp hc
    refine ⟨hd, (h.isAncestor_iff_exists_child hu hd).mpr ⟨c, hc, hparent, hcd⟩, hdecision, ?_, ?_⟩
    · exact fun m hm => hopen m (h.contains_of_isOnWay hu hc hd hparent hcd hm) hm.2
    · rintro ⟨c', hway, hparent', hkind'⟩
      have hc' : c' ∈ t.nodes := by
        rcases hway.2 with rfl | hcontains
        · exact hd
        · exact hcontains.1
      rw [eq_of_contains_of_contains h hu hc hc' hd hparent hparent' hcd hway.2] at hkind
      exact hkind hkind'

theorem finite_isOwnDecision (t : Tree) (u : Node) : {d | IsOwnDecision t u d}.Finite :=
  finite_of_forall_mem fun _ hd => hd.mem_nodes

theorem gives_displayName (h : t.WellFormed) (hn : n ∈ t.nodes) :
    Gives (fun _ => True) (displayName t n) := by
  unfold displayName
  split
  · refine gives_bind (h.gives_parent hn) fun owner _ => ?_
    repeat' first
      | exact gives_pure trivial
      | split
  · exact gives_pure trivial
  · exact gives_pure trivial
  · exact gives_pure trivial

/-- A node of one of the kinds is a code unit. -/
theorem gives_codeUnit (h : t.WellFormed) (hn : n ∈ t.nodes) (hunit : n.kind.isCodeUnit = true) :
    Gives (fun unit => unit.node = n) (codeUnit t n) := by
  unfold codeUnit
  rw [if_pos hunit]
  exact gives_bind (gives_displayName h hn) fun name _ => gives_pure rfl

/-- **The complexity of a unit is one more than the number of its own decision points.** -/
theorem complexity_eq (h : t.WellFormed) {unit : CodeUnit} (hunit : unit.node ∈ t.nodes) :
    complexity t unit = .ok (1 + {d | IsOwnDecision t unit.node d}.ncard) := by
  obtain ⟨children, hfound, hnodup, hchildren⟩ := h.gives_children hunit
  have hown : sumOver (decisionsBelow t t.size) (ownChildren children) =
      .ok {d | IsOwnDecision t unit.node d}.ncard := by
    rw [setOf_isOwnDecision h hunit hchildren]
    refine sumOver_eq_ncard (fun c hc => ?_) (fun c _ => finite_openDecisions t c)
      ((disjoint_openDecisions h hunit hchildren hnodup).filter _)
    exact decisionsBelow_eq h ((hchildren c).mp (List.mem_of_mem_filter hc)).1 (Nat.sub_le _ _)
  refine (complexity_eq_iff (by simp)).mpr ⟨t.size, ?_⟩
  simp only [complexityTo, hfound, hown]
  rfl

theorem gives_complexityAt (h : t.WellFormed) (hn : n ∈ t.nodes)
    (hunit : n.kind.isCodeUnit = true) :
    Gives (fun score => score = 1 + {d | IsOwnDecision t n d}.ncard) (complexityAt t n) := by
  obtain ⟨unit, hcodeUnit, rfl⟩ := gives_codeUnit h hn hunit
  refine ⟨_, ?_, rfl⟩
  rw [complexityAt, hcodeUnit]
  exact complexity_eq h hn

/-- There is an end to every count in a well-formed tree. -/
theorem complexityAt_ne_endless (h : t.WellFormed) (hn : n ∈ t.nodes) :
    complexityAt t n ≠ .error .endless := by
  by_cases hunit : n.kind.isCodeUnit = true
  · obtain ⟨score, hscore, -⟩ := gives_complexityAt h hn hunit
    simp [hscore]
  · simp [complexityAt, codeUnit, hunit]

/-- **Complexity is one plus the unit's own decision points.** In a tree that was built or decoded,
every node of one of the kinds is a code unit, and its complexity is found: it is one more than the
number of decision points below it such that no function is nested on the way to them and the way
does not begin at a parameter of the unit. -/
theorem complexity_counts_own_decisions (t : Tree) (hmade : IsMade t) (u : Node) (hu : u ∈ t.nodes)
    (hunit : IsCodeUnit u.kind) :
    ∃ unit, codeUnit t u = .ok unit ∧ unit.node = u ∧
      complexity t unit = .ok (1 + {d | IsOwnDecision t u d}.ncard) := by
  have hwf := wellFormed_of_isMade hmade
  obtain ⟨unit, hcodeUnit, rfl⟩ := gives_codeUnit hwf hu ((isCodeUnit_iff _).mpr hunit)
  exact ⟨unit, hcodeUnit, rfl, complexity_eq hwf hu⟩

/-- A method with a decision point in the default of its parameter, one in a lambda, two of its own,
the second of them in the first, and an arm that matches everything. -/
def nestedCalls : List Builder.Call :=
  [.add none { kind := .classDeclaration }, .add (some 1) { kind := .method },
   .add (some 2) { kind := .parameter }, .add (some 3) { kind := .conditional },
   .add (some 2) { kind := .ifStatement }, .add (some 5) { kind := .lambda },
   .add (some 6) { kind := .whileLoop },
   .add (some 5) { kind := .binary, operator := some "??" },
   .add (some 8) { kind := .switchArm, isDiscard := true }, .build]

/-- The tree that the calls build. -/
def nestedTree : Tree := ((Builder.start "src/App.cs").run nestedCalls).2.tree

set_option maxRecDepth 4000 in
theorem isMade_nestedTree : IsMade nestedTree :=
  Or.inl ⟨"src/App.cs", nestedCalls, List.mem_of_getElem? (i := 9) rfl⟩

set_option maxRecDepth 4000 in
/-- The method has two decision points of its own. -/
theorem complexity_counts_own_decisions_nested :
    ∃ u, nestedTree.nodes[2]? = some u ∧ u.kind = .method ∧ complexityAt nestedTree u = .ok 3 ∧
      {d | IsOwnDecision nestedTree u d}.ncard = 2 := by
  obtain ⟨u, hu, hkind, hscore⟩ : ∃ u, nestedTree.nodes[2]? = some u ∧ u.kind = .method ∧
      complexityAt nestedTree u = .ok 3 :=
    ⟨_, rfl, rfl, complexityAt_of_complexityTo 9 rfl rfl⟩
  obtain ⟨unit, hunit, -, hcount⟩ := complexity_counts_own_decisions nestedTree isMade_nestedTree u
    (Array.mem_of_getElem? hu) (Or.inl hkind)
  refine ⟨u, hu, hkind, hscore, ?_⟩
  unfold complexityAt at hscore
  rw [hunit] at hscore
  have hthree : 1 + {d | IsOwnDecision nestedTree u d}.ncard = 3 :=
    Except.ok.inj (hcount.symm.trans hscore)
  omega

/-! ## The units of a tree -/

/-- The node is a decision point with a unit above it, and it is not reached from the nearest one
through a parameter. -/
def IsCounted (t : Tree) (d : Node) : Prop :=
  d ∈ t.nodes ∧ IsDecision d.toFacts ∧ ∃ u, t.IsNearest IsCodeUnit d u ∧ ¬IsThroughParameter t u d

/-- Methods, constructors and accessors are not declared inside other units. -/
def MembersApart (t : Tree) : Prop :=
  ∀ m ∈ t.nodes, m.kind = .method ∨ m.kind = .constructor ∨ m.kind = .accessor →
    ∀ a, t.IsAncestor a m → ¬IsCodeUnit a.kind

/-- **The unit that a decision point counts for is the nearest one above it.** -/
theorem isOwnDecision_iff (h : t.WellFormed) (hapart : MembersApart t) (hunit : IsCodeUnit u.kind) :
    IsOwnDecision t u d ↔ d ∈ t.nodes ∧ IsDecision d.toFacts ∧
      t.IsNearest IsCodeUnit d u ∧ ¬IsThroughParameter t u d := by
  constructor
  · rintro ⟨hd, hbelow, hdecision, hnested, hparameter⟩
    refine ⟨hd, hdecision, ⟨hbelow, hunit, fun b hb hbunit => ?_⟩, hparameter⟩
    rcases h.contains_total hd (Or.inr hb) (Or.inr hbelow) with hbu | rfl | hub
    · exact hbu
    · exact Or.inl rfl
    · -- a unit between the two is neither nested nor a member
      have hopen := hnested b ⟨hub, Or.inr hb⟩
      refine absurd hunit (hapart b hb.1 ?_ u hub)
      unfold IsCodeUnit at hbunit
      tauto
  · rintro ⟨hd, hdecision, hnearest, hparameter⟩
    refine ⟨hd, hnearest.isAncestor, hdecision, fun m hm hnested => ?_, hparameter⟩
    have hmunit : IsCodeUnit m.kind := Or.inr (Or.inr (Or.inr hnested))
    rcases hm.2 with rfl | hmd
    · exact not_isCodeUnit_of_isDecision hdecision hmunit
    · have hle := h.index_le_of_contains (hnearest.nearest m hmd hmunit)
      have hlt := h.index_lt_of_isAncestor hm.1
      omega

theorem mem_units_iff : u ∈ t.nodes.toList.filter (IsCodeUnit ·.kind) ↔
    u ∈ t.nodes ∧ IsCodeUnit u.kind := by
  rw [List.mem_filter, Array.mem_toList_iff, decide_eq_true_iff]

theorem disjoint_isOwnDecision (h : t.WellFormed) (hapart : MembersApart t) :
    (t.nodes.toList.filter (IsCodeUnit ·.kind)).Pairwise fun a b =>
      Disjoint {d | IsOwnDecision t a d} {d | IsOwnDecision t b d} := by
  refine (h.nodup_nodes.filter _).imp_of_mem fun ha hb hne => ?_
  refine Set.disjoint_left.mpr fun d hda hdb => hne ?_
  obtain ⟨-, -, hnearest, -⟩ := (isOwnDecision_iff h hapart (mem_units_iff.mp ha).2).mp hda
  obtain ⟨-, -, hnearest', -⟩ := (isOwnDecision_iff h hapart (mem_units_iff.mp hb).2).mp hdb
  exact h.eq_of_isNearest hnearest hnearest'

theorem iUnion_isOwnDecision (h : t.WellFormed) (hapart : MembersApart t) :
    (⋃ u ∈ t.nodes.toList.filter (IsCodeUnit ·.kind), {d | IsOwnDecision t u d}) =
      {d | IsCounted t d} := by
  ext d
  simp only [Set.mem_iUnion, exists_prop, Set.mem_ofPred_eq, mem_units_iff]
  constructor
  · rintro ⟨u, ⟨-, hunit⟩, hown⟩
    obtain ⟨hd, hdecision, hnearest, hparameter⟩ := (isOwnDecision_iff h hapart hunit).mp hown
    exact ⟨hd, hdecision, u, hnearest, hparameter⟩
  · rintro ⟨hd, hdecision, u, hnearest, hparameter⟩
    have hunit := hnearest.holds
    exact ⟨u, ⟨hnearest.isAncestor.1, hunit⟩,
      (isOwnDecision_iff h hapart hunit).mpr ⟨hd, hdecision, hnearest, hparameter⟩⟩

end WellFormed

/-- **No decision point is lost or counted twice.** In a tree that was built or decoded and in which
no method, constructor or accessor is declared inside a code unit, the complexities of all units,
each less one, add up to the number of decision points that have a unit above them and are not
reached from the nearest one through a parameter. A decision point counts for its nearest unit and
for no other. -/
theorem decisions_counted_once (t : Tree) (hmade : IsMade t) (hapart : MembersApart t) :
    sumOver (fun u => (· - 1) <$> complexityAt t u) (t.nodes.toList.filter (IsCodeUnit ·.kind)) =
      .ok {d | IsCounted t d}.ncard ∧
    (∀ u ∈ t.nodes, IsCodeUnit u.kind →
      complexityAt t u = .ok (1 + {d | IsOwnDecision t u d}.ncard)) ∧
    ∀ u d, IsCodeUnit u.kind → IsOwnDecision t u d → t.IsNearest IsCodeUnit d u ∧
      ∀ u', IsCodeUnit u'.kind → IsOwnDecision t u' d → u' = u := by
  have hwf := wellFormed_of_isMade hmade
  have hscore : ∀ u ∈ t.nodes, IsCodeUnit u.kind →
      complexityAt t u = .ok (1 + {d | IsOwnDecision t u d}.ncard) := by
    intro u hu hunit
    obtain ⟨score, hscore, rfl⟩ := gives_complexityAt hwf hu ((isCodeUnit_iff _).mpr hunit)
    exact hscore
  refine ⟨?_, hscore, fun u d hunit hown => ?_⟩
  · rw [← iUnion_isOwnDecision hwf hapart]
    refine sumOver_eq_ncard (fun u hu => ?_) (fun u _ => finite_isOwnDecision t u)
      (disjoint_isOwnDecision hwf hapart)
    obtain ⟨hu, hunit⟩ := mem_units_iff.mp hu
    rw [hscore u hu hunit]
    exact congrArg Except.ok (Nat.add_sub_cancel_left 1 _)
  · obtain ⟨-, -, hnearest, -⟩ := (isOwnDecision_iff hwf hapart hunit).mp hown
    refine ⟨hnearest, fun u' hunit' hown' => ?_⟩
    obtain ⟨-, -, hnearest', -⟩ := (isOwnDecision_iff hwf hapart hunit').mp hown'
    exact hwf.eq_of_isNearest hnearest' hnearest

set_option maxRecDepth 4000 in
/-- The method and the lambda in it count three decision points, none of them twice; the one in the
default of the parameter is not among them. -/
theorem decisions_counted_once_nested :
    MembersApart nestedTree ∧ {d | IsCounted nestedTree d}.ncard = 3 := by
  have hapart : MembersApart nestedTree := by
    have hwf := wellFormed_of_isMade isMade_nestedTree
    -- the method is the only member, and the way up from it can be looked at
    have hlines : ∀ m ∈ nestedTree.nodes.toList,
        m.kind = .method ∨ m.kind = .constructor ∨ m.kind = .accessor →
          ∀ a ∈ (nestedTree.lineage m).nodes, ¬IsCodeUnit a.kind := by decide
    intro m hm hmember a ha
    refine hlines m (Array.mem_toList_iff.mpr hm) hmember a ?_
    exact (hwf.mem_wayUp_iff hm (hwf.isWayUp_lineage hm).2).mpr ha
  refine ⟨hapart, ?_⟩
  obtain ⟨hsum, -⟩ := decisions_counted_once nestedTree isMade_nestedTree hapart
  obtain ⟨method, lambda, hunits, hmethod, hlambda⟩ : ∃ method lambda,
      nestedTree.nodes.toList.filter (IsCodeUnit ·.kind) = [method, lambda] ∧
      complexityAt nestedTree method = .ok 3 ∧ complexityAt nestedTree lambda = .ok 2 :=
    ⟨_, _, rfl, complexityAt_of_complexityTo 9 rfl rfl, complexityAt_of_complexityTo 9 rfl rfl⟩
  have hthree : sumOver (fun u => (· - 1) <$> complexityAt nestedTree u)
      (nestedTree.nodes.toList.filter (IsCodeUnit ·.kind)) = .ok 3 := by
    rw [hunits, sumOver, sumOver, sumOver, hmethod, hlambda]
    rfl
  exact Except.ok.inj (hsum.symm.trans hthree)

end SeamLint.Measure
