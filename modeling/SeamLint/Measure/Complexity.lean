import SeamLint.Code.Tree

set_option autoImplicit false

/-! # Cyclomatic complexity

The complexity of a code unit is one plus the number of decision points in its own code.
Functions nested inside it are scored on their own and do not count, and neither do its
parameters. The code is gone through with a stack. In a tree whose children lead back to a
node above there is no end to that.
-/

namespace SeamLint.Measure

open SeamLint.Code

/-- The operators that choose whether their right side is evaluated. -/
def shortCircuitOperators : List String := ["&&", "||", "??"]

/-- What a node adds to the complexity of the unit it belongs to. A label that matches
everything adds no branch. -/
def decisionWeight (f : Facts) : Nat :=
  match f.kind with
  | .ifStatement | .forLoop | .foreachLoop | .whileLoop | .doLoop | .catchClause
  | .conditional => 1
  | .caseLabel | .switchArm => if f.isDiscard then 0 else 1
  | .binary =>
      match f.operator with
      | some operator => if shortCircuitOperators.contains operator then 1 else 0
      | none => 0
  | _ => 0

/-- A count on its way: the score so far and a stack of the nodes to come. -/
structure Count where
  score : Nat
  stack : List Node

/-- Takes a node off the stack and adds what it weighs to the score. A nested unit is left out
with everything below it; the children of any other node go on the stack from the last to the
first. -/
def Count.turn (t : Tree) (c : Count) : Count ⊕ Except Fault Nat :=
  match c.stack with
  | [] => .inr (.ok c.score)
  | n :: rest =>
      if n.kind.isNestedUnit then .inl ⟨c.score, rest⟩
      else
        match t.children n with
        | .error fault => .inr (.error fault)
        | .ok children =>
            .inl ⟨c.score + decisionWeight n.toFacts, pushAll rest children.reverse⟩

/-- Takes turns until one of them gives a result. There is none if they never end. -/
def Count.run (t : Tree) (c : Count) : Option (Except Fault Nat) :=
  match c.turn t with
  | .inl next => next |>.run t
  | .inr result => some result
partial_fixpoint

/-- The score after a stack of nodes is worked off. There is none if the stack never gets
empty. -/
def tally (t : Tree) (score : Nat) (stack : List Node) : Option (Except Fault Nat) :=
  Count.run t ⟨score, stack⟩

/-- A function-like node with the name it is reported under. -/
structure CodeUnit where
  node : Node
  name : String

/-- The name of an accessor that has none. -/
def defaultAccessor : String := "get"

/-- The name a code unit is reported under. An accessor is named with its property. -/
def displayName (t : Tree) (n : Node) : Except Fault String :=
  match n.kind with
  | .accessor => do
      let accessor := n.properName?.getD defaultAccessor
      match ← t.parent n with
      | some owner =>
          match owner.kind, owner.properName? with
          | .property, some name => return name ++ "." ++ accessor
          | _, _ => return accessor
      | none => return accessor
  | .lambda => .ok (n.properName?.getD "<lambda>")
  | .anonymousMethod => .ok (n.properName?.getD "<anonymous>")
  | _ => .ok (n.properName?.getD "<unnamed>")

/-- A node as a code unit. -/
def codeUnit (t : Tree) (n : Node) : Except Fault CodeUnit :=
  if n.kind.isCodeUnit then do return ⟨n, ← displayName t n⟩
  else .error (.notCodeUnit n.kind n.index)

/-- The complexity of a code unit. -/
def complexity (t : Tree) (unit : CodeUnit) : Except (Stop Fault) Nat :=
  match t.children unit.node with
  | .error fault => .error (.raised fault)
  | .ok children =>
      let own := children.reverse.filter fun child => child.kind ≠ .parameter
      match tally t 1 (pushAll [] own) with
      | some (.ok score) => .ok score
      | some (.error fault) => .error (.raised fault)
      | none => .error .endless

/-- The complexity of a node that is a code unit. -/
def complexityAt (t : Tree) (n : Node) : Except (Stop Fault) Nat :=
  match codeUnit t n with
  | .ok unit => complexity t unit
  | .error fault => .error (.raised fault)

end SeamLint.Measure
