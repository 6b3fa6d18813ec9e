import SeamLint.Measure.Complexity

set_option autoImplicit false

/-! # Complexity by recursion

`tally` goes through the code of a unit with a stack. Here the same is counted by recursion on
the nodes below one another, down to a given depth (`decisionsBelow`). What lies on the stack is
then a sum that is still to be added to the score: working off some nodes in front of a stack
adds their sum and leaves the rest of the stack (`Settles`). So the stack gets empty with a score
if and only if some depth is enough for the recursion to come to that score, and it never gets
empty if and only if no depth is enough (`complexity_eq_iff`, `complexity_eq_endless_iff`).
-/

namespace SeamLint.Measure

open SeamLint.Code

/-! ## The recursion -/

/-- The sum of a measure over nodes, in order. -/
def sumOver {ε : Type} (measure : Node → Except ε Nat) : List Node → Except ε Nat
  | [] => .ok 0
  | n :: rest => do
      let first ← measure n
      let others ← sumOver measure rest
      return first + others

/-- The decision points at a node and below it, down to `depth` levels and leaving out nested
units. If there are more levels, that is not enough. -/
def decisionsBelow (t : Tree) : Nat → Node → Except (Stop Fault) Nat
  | 0, _ => .error .endless
  | depth + 1, n =>
      if n.kind.isNestedUnit then .ok 0
      else
        match t.children n with
        | .error fault => .error (.raised fault)
        | .ok children => do
            let below ← sumOver (decisionsBelow t depth) children
            return decisionWeight n.toFacts + below

/-- The children of a unit whose code is its own. -/
def ownChildren (children : List Node) : List Node :=
  children.filter fun child => child.kind ≠ .parameter

/-- The complexity of a unit, counted by recursion down to `depth` levels. -/
def complexityTo (t : Tree) (depth : Nat) (unit : CodeUnit) : Except (Stop Fault) Nat :=
  match t.children unit.node with
  | .error fault => .error (.raised fault)
  | .ok children => do
      let below ← sumOver (decisionsBelow t depth) (ownChildren children)
      return 1 + below

/-! ## Single steps of the stack -/

section Steps

variable (t : Tree) (score : Nat)

theorem Count.turn_nested {n : Node} (h : n.kind.isNestedUnit = true) (rest : List Node) :
    Count.turn t ⟨score, n :: rest⟩ = .inl ⟨score, rest⟩ :=
  if_pos h

theorem Count.turn_raised {n : Node} (h : ¬n.kind.isNestedUnit = true) {fault : Fault}
    (hchildren : t.children n = .error fault) (rest : List Node) :
    Count.turn t ⟨score, n :: rest⟩ = .inr (.error fault) := by
  simp only [turn, if_neg h, hchildren]

theorem Count.turn_cons {n : Node} (h : ¬n.kind.isNestedUnit = true) {children : List Node}
    (hchildren : t.children n = .ok children) (rest : List Node) :
    Count.turn t ⟨score, n :: rest⟩ =
      .inl ⟨score + decisionWeight n.toFacts, children ++ rest⟩ := by
  simp only [turn, if_neg h, hchildren, pushAll_eq, List.reverse_reverse]

theorem tally_nil : tally t score [] = some (.ok score) := by
  rw [tally, Count.run]
  rfl

theorem tally_nested {n : Node} (h : n.kind.isNestedUnit = true) (rest : List Node) :
    tally t score (n :: rest) = tally t score rest := by
  rw [tally, Count.run, Count.turn_nested t score h]
  rfl

theorem tally_raised {n : Node} (h : ¬n.kind.isNestedUnit = true) {fault : Fault}
    (hchildren : t.children n = .error fault) (rest : List Node) :
    tally t score (n :: rest) = some (.error fault) := by
  rw [tally, Count.run, Count.turn_raised t score h hchildren]

theorem tally_cons {n : Node} (h : ¬n.kind.isNestedUnit = true) {children : List Node}
    (hchildren : t.children n = .ok children) (rest : List Node) :
    tally t score (n :: rest) =
      tally t (score + decisionWeight n.toFacts) (children ++ rest) := by
  rw [tally, Count.run, Count.turn_cons t score h hchildren]
  rfl

end Steps

/-! ## From the recursion to the stack -/

/-- Working off nodes in front of any stack comes to this: their sum is added to the score, or a
fault ends the walk. A recursion that was not deep enough says nothing. -/
def Settles (t : Tree) (nodes : List Node) : Except (Stop Fault) Nat → Prop
  | .ok k => ∀ score rest, tally t score (nodes ++ rest) = tally t (score + k) rest
  | .error (.raised fault) => ∀ score rest, tally t score (nodes ++ rest) = some (.error fault)
  | .error .endless => True

/-- Nodes are worked off one after another. -/
theorem settles_sumOver {t : Tree} {measure : Node → Except (Stop Fault) Nat}
    (h : ∀ n, Settles t [n] (measure n)) (nodes : List Node) :
    Settles t nodes (sumOver measure nodes) := by
  induction nodes with
  | nil =>
      intro score rest
      rfl
  | cons n nodes ih =>
      have hfirst := h n
      rw [sumOver]
      generalize measure n = first, sumOver measure nodes = others at hfirst ih ⊢
      rcases first with (fault | _) | k
      · intro score rest
        exact hfirst score (nodes ++ rest)
      · trivial
      · rcases others with (fault | _) | others
        · intro score rest
          exact (hfirst score (nodes ++ rest)).trans (ih (score + k) rest)
        · trivial
        · intro score rest
          rw [← Nat.add_assoc]
          exact (hfirst score (nodes ++ rest)).trans (ih (score + k) rest)

/-- **A node in front of a stack adds what the recursion counts below it.** -/
theorem settles_decisionsBelow (t : Tree) (depth : Nat) (n : Node) :
    Settles t [n] (decisionsBelow t depth n) := by
  induction depth generalizing n with
  | zero => trivial
  | succ depth ih =>
      rw [decisionsBelow]
      by_cases hnested : n.kind.isNestedUnit = true
      · rw [if_pos hnested]
        intro score rest
        exact tally_nested t score hnested rest
      · rw [if_neg hnested]
        cases hchildren : t.children n with
        | error fault =>
            intro score rest
            exact tally_raised t score hnested hchildren rest
        | ok children =>
            have hbelow := settles_sumOver ih children
            dsimp only
            generalize sumOver (decisionsBelow t depth) children = below at hbelow ⊢
            rcases below with (fault | _) | below
            · intro score rest
              exact (tally_cons t score hnested hchildren rest).trans (hbelow _ rest)
            · trivial
            · intro score rest
              rw [← Nat.add_assoc]
              exact (tally_cons t score hnested hchildren rest).trans (hbelow _ rest)

/-! ## From the stack to the recursion -/

/-- The second measure gives what the first gives, wherever that has an end. -/
def Refines (measure measure' : Node → Except (Stop Fault) Nat) : Prop :=
  ∀ n, measure n ≠ .error .endless → measure' n = measure n

theorem sumOver_eq_of_refines {measure measure' : Node → Except (Stop Fault) Nat}
    (h : Refines measure measure') {nodes : List Node}
    (hends : sumOver measure nodes ≠ .error .endless) :
    sumOver measure' nodes = sumOver measure nodes := by
  induction nodes with
  | nil => rfl
  | cons n nodes ih =>
      have hfirst := h n
      rw [sumOver] at hends
      rw [sumOver, sumOver]
      cases hn : measure n with
      | error stop =>
          rw [hn] at hfirst hends
          rw [hfirst hends]
          rfl
      | ok k =>
          rw [hn] at hfirst hends
          rw [hfirst (by simp), ih fun hrest => hends (by rw [hrest]; rfl)]

/-- More depth changes nothing that has been counted. -/
theorem refines_decisionsBelow (t : Tree) (depth : Nat) :
    Refines (decisionsBelow t depth) (decisionsBelow t (depth + 1)) := by
  induction depth with
  | zero => exact fun n hends => absurd rfl hends
  | succ depth ih =>
      intro n hends
      rw [decisionsBelow] at hends
      rw [decisionsBelow, decisionsBelow]
      split
      · rfl
      · next hnested =>
          rw [if_neg hnested] at hends
          cases hchildren : t.children n with
          | error fault => rfl
          | ok children =>
              rw [hchildren] at hends
              have hsum : sumOver (decisionsBelow t depth) children ≠ .error .endless :=
                fun hsum => hends (by simp only [hsum]; rfl)
              simp only [sumOver_eq_of_refines ih hsum]

theorem sumOver_append {ε : Type} (measure : Node → Except ε Nat) (as bs : List Node) :
    sumOver measure (as ++ bs) =
      sumOver measure as >>= fun a => sumOver measure bs >>= fun b => .ok (a + b) := by
  induction as with
  | nil =>
      rw [List.nil_append, sumOver]
      cases sumOver measure bs with
      | error fault => rfl
      | ok b => simp [bind, Except.bind]
  | cons n as ih =>
      rw [List.cons_append, sumOver, sumOver, ih]
      cases measure n with
      | error fault => rfl
      | ok k =>
          cases sumOver measure as with
          | error fault => rfl
          | ok a =>
              cases sumOver measure bs with
              | error fault => rfl
              | ok b => simp [bind, Except.bind, pure, Except.pure, Nat.add_assoc]

/-- The recursion to this depth comes to the result of a stack. -/
def Reaches (t : Tree) (depth score : Nat) (stack : List Node) : Except Fault Nat → Prop
  | .ok s => ∃ k, sumOver (decisionsBelow t depth) stack = .ok k ∧ s = score + k
  | .error fault => sumOver (decisionsBelow t depth) stack = .error (.raised fault)

/-- A node with a known sum in front of a stack with a known result. -/
theorem Reaches.cons {t : Tree} {depth score k : Nat} {n : Node} {rest : List Node}
    {result : Except Fault Nat} (h : Reaches t depth (score + k) rest result)
    (hn : decisionsBelow t depth n = .ok k) : Reaches t depth score (n :: rest) result := by
  cases result with
  | ok s =>
      obtain ⟨others, hothers, rfl⟩ := h
      refine ⟨k + others, ?_, by omega⟩
      rw [sumOver, hn, hothers]
      rfl
  | error fault =>
      show sumOver _ _ = _
      rw [sumOver, hn, show sumOver _ rest = _ from h]
      rfl

theorem Reaches.succ {t : Tree} {depth score : Nat} {stack : List Node}
    {result : Except Fault Nat} (h : Reaches t depth score stack result) :
    Reaches t (depth + 1) score stack result := by
  have hrefines := refines_decisionsBelow t depth
  cases result with
  | ok s =>
      obtain ⟨k, hk, rfl⟩ := h
      refine ⟨k, ?_, rfl⟩
      rw [sumOver_eq_of_refines hrefines (by simp [hk]), hk]
  | error fault =>
      have hsum : sumOver (decisionsBelow t depth) stack = .error (.raised fault) := h
      show sumOver _ _ = _
      rw [sumOver_eq_of_refines hrefines (by simp [hsum]), hsum]

/-- The children of a node in front of a stack count as the node does one level higher. -/
theorem Reaches.parent {t : Tree} {depth score : Nat} {n : Node} {children rest : List Node}
    {result : Except Fault Nat} (hnested : ¬n.kind.isNestedUnit = true)
    (hchildren : t.children n = .ok children)
    (h : Reaches t depth (score + decisionWeight n.toFacts) (children ++ rest) result) :
    Reaches t (depth + 1) score (n :: rest) result := by
  have hbelow : decisionsBelow t (depth + 1) n =
      sumOver (decisionsBelow t depth) children >>= fun below =>
        .ok (decisionWeight n.toFacts + below) := by
    rw [decisionsBelow, if_neg hnested, hchildren]
    rfl
  cases hsum : sumOver (decisionsBelow t depth) children with
  | ok a =>
      rw [hsum] at hbelow
      refine Reaches.cons (k := decisionWeight n.toFacts + a) (Reaches.succ ?_) hbelow
      cases result with
      | ok s =>
          obtain ⟨k, hk, rfl⟩ := h
          rw [sumOver_append, hsum] at hk
          cases hrest : sumOver (decisionsBelow t depth) rest with
          | error stop => rw [hrest] at hk; cases hk
          | ok b =>
              rw [hrest] at hk
              obtain rfl : a + b = k := Except.ok.inj hk
              exact ⟨b, hrest, by omega⟩
      | error fault =>
          have hk : sumOver (decisionsBelow t depth) (children ++ rest) =
              .error (.raised fault) := h
          rw [sumOver_append, hsum] at hk
          cases hrest : sumOver (decisionsBelow t depth) rest with
          | error stop =>
              rw [hrest] at hk
              obtain rfl : stop = .raised fault := Except.error.inj hk
              exact hrest
          | ok b => rw [hrest] at hk; cases hk
  | error stop =>
      -- the fault comes from the children, before the rest is looked at
      cases result with
      | ok s =>
          obtain ⟨k, hk, -⟩ := h
          rw [sumOver_append, hsum] at hk
          cases hk
      | error fault =>
          have hk : sumOver (decisionsBelow t depth) (children ++ rest) =
              .error (.raised fault) := h
          rw [sumOver_append, hsum] at hk
          obtain rfl : stop = .raised fault := Except.error.inj hk
          show sumOver _ _ = _
          rw [sumOver, hbelow, hsum]
          rfl

/-- **A stack that gets empty is counted by a recursion that is deep enough.** -/
theorem exists_reaches {t : Tree} {score : Nat} {stack : List Node} {result : Except Fault Nat}
    (h : tally t score stack = some result) : ∃ depth, Reaches t depth score stack result := by
  refine Count.run.partial_correctness t
    (fun c result => ∃ depth, Reaches t depth c.score c.stack result) ?_ ⟨score, stack⟩ result h
  rintro counted ih ⟨score, stack⟩ result h
  cases stack with
  | nil =>
      obtain rfl := Option.some.inj h
      exact ⟨0, 0, rfl, rfl⟩
  | cons n rest =>
      by_cases hnested : n.kind.isNestedUnit = true
      · rw [Count.turn_nested t score hnested] at h
        obtain ⟨depth, hdepth⟩ := ih _ _ h
        refine ⟨depth + 1, Reaches.cons (k := 0) hdepth.succ ?_⟩
        rw [decisionsBelow, if_pos hnested]
      · cases hchildren : t.children n with
        | error fault =>
            rw [Count.turn_raised t score hnested hchildren] at h
            obtain rfl := Option.some.inj h
            refine ⟨1, ?_⟩
            show sumOver _ _ = _
            rw [sumOver, decisionsBelow, if_neg hnested, hchildren]
            rfl
        | ok children =>
            rw [Count.turn_cons t score hnested hchildren] at h
            obtain ⟨depth, hdepth⟩ := ih _ _ h
            exact ⟨depth + 1, hdepth.parent hnested hchildren⟩

/-! ## Stack and recursion -/

/-- The complexity in terms of the stack that the own children make. -/
theorem complexity_of_children {t : Tree} {unit : CodeUnit} {children : List Node}
    (h : t.children unit.node = .ok children) :
    complexity t unit =
      match tally t 1 (ownChildren children) with
      | some (.ok score) => .ok score
      | some (.error fault) => .error (.raised fault)
      | none => .error .endless := by
  have hstack : pushAll [] (children.reverse.filter fun child => child.kind ≠ .parameter) =
      ownChildren children := by
    rw [pushAll_eq, List.filter_reverse, List.reverse_reverse, List.append_nil, ownChildren]
  rw [← hstack]
  unfold complexity
  split
  · next fault hfault =>
    cases h.symm.trans hfault
  · next found hfound =>
    obtain rfl : children = found := Except.ok.inj (h.symm.trans hfound)
    rfl

/-- **The stack and the recursion come to the same.** A complexity is found, or a fault, if and
only if a recursion that is deep enough comes to it. -/
theorem complexity_eq_iff {t : Tree} {unit : CodeUnit} {result : Except (Stop Fault) Nat}
    (hends : result ≠ .error .endless) :
    complexity t unit = result ↔ ∃ depth, complexityTo t depth unit = result := by
  cases hchildren : t.children unit.node with
  | error fault => simp [complexity, complexityTo, hchildren]
  | ok children =>
      rw [complexity_of_children hchildren]
      simp only [complexityTo, hchildren]
      constructor
      · intro h
        cases htally : tally t 1 (ownChildren children) with
        | none => exact absurd (by rw [← h, htally]) hends
        | some score =>
            rw [htally] at h
            obtain ⟨depth, hdepth⟩ := exists_reaches htally
            refine ⟨depth, ?_⟩
            cases score with
            | ok score =>
                obtain ⟨k, hk, rfl⟩ := hdepth
                rw [hk, ← h]
                rfl
            | error fault =>
                rw [show sumOver _ _ = _ from hdepth, ← h]
                rfl
      · rintro ⟨depth, h⟩
        have hsettles := settles_sumOver (settles_decisionsBelow t depth) (ownChildren children)
        generalize sumOver (decisionsBelow t depth) (ownChildren children) = sum at h hsettles
        rcases sum with (fault | _) | k
        · have htally := hsettles 1 []
          rw [List.append_nil] at htally
          rw [htally, ← h]
          rfl
        · exact absurd h.symm hends
        · have htally := hsettles 1 []
          rw [List.append_nil, tally_nil] at htally
          rw [htally, ← h]
          rfl

/-- A score that a recursion comes to is the complexity. -/
theorem complexityAt_of_complexityTo {t : Tree} {n : Node} {unit : CodeUnit} (depth : Nat)
    {score : Nat} (hunit : codeUnit t n = .ok unit) (h : complexityTo t depth unit = .ok score) :
    complexityAt t n = .ok score := by
  rw [complexityAt, hunit]
  exact (complexity_eq_iff (by simp)).mpr ⟨depth, h⟩

/-- There is no end to the stack if and only if no recursion is deep enough. -/
theorem complexity_eq_endless_iff {t : Tree} {unit : CodeUnit} :
    complexity t unit = .error .endless ↔
      ∀ depth, complexityTo t depth unit = .error .endless := by
  constructor
  · intro h depth
    refine Classical.byContradiction fun hends => ?_
    have hcomplexity := (complexity_eq_iff hends).mpr ⟨depth, rfl⟩
    exact hends (hcomplexity.symm.trans h)
  · intro h
    refine Classical.byContradiction fun hends => ?_
    obtain ⟨depth, hdepth⟩ := (complexity_eq_iff hends).mp rfl
    exact hends (hdepth.symm.trans (h depth))

end SeamLint.Measure
