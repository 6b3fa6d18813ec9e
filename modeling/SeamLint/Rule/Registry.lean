import SeamLint.Data.Access

set_option autoImplicit false

/-! # Registering and selecting rules

A registry holds at most one entry for each rule id. From the entries of a registry those
are selected that are on by default or asked for, and not switched off.
-/

namespace SeamLint.Rule

open SeamLint.Data

/-! ## Selection -/

/-- The ids that a configuration value lists. -/
def idsOf (v : Value) : Except AccessFault (List Key) := do
  (← v.elements).mapM Value.toKey

/-- The id is among the listed ones. -/
def lists (ids : List Key) (id : String) : Bool := ids.any (Key.same · (.text id))

/-- A rule is active if it is on by default or enabled, and not disabled. -/
def isActive (enabled disabled : List Key) (id : String) (byDefault : Bool) : Bool :=
  !lists disabled id && (byDefault || lists enabled id)

/-! ## Registries -/

/-- A rule as it is registered: its id and the name of its author's choice. Two
definitions under one name are told apart by their revision. -/
structure Entry where
  id : String
  name : String
  revision : Nat
  enabledByDefault : Bool
deriving DecidableEq, Repr

/-- An id is taken by another rule. -/
structure IdTaken where
  id : String
  owner : String
deriving DecidableEq, Repr

/-- The wording of the fault. -/
def IdTaken.message (t : IdTaken) : String :=
  s!"Rule id {t.id} is already registered by {t.owner}"

/-- The registered rules. -/
structure Registry where
  entries : List Entry := []
deriving Repr, Inhabited

/-- The rule registered under an id. -/
def Registry.find? (r : Registry) (id : String) : Option Entry :=
  r.entries.find? fun e => e.id == id

/-- Registers a rule. Registering the same rule again changes nothing. -/
def Registry.register (r : Registry) (e : Entry) : Except IdTaken Registry :=
  match r.find? e.id with
  | none => .ok ⟨r.entries ++ [e]⟩
  | some owner => if owner = e then .ok r else .error ⟨e.id, owner.name⟩

/-- The registered rules in the order of their ids. -/
def Registry.sorted (r : Registry) : List Entry := r.entries.mergeSort fun a b => a.id ≤ b.id

/-- The active rules in the order of their ids. -/
def Registry.select (r : Registry) (enabled disabled : List Key) : List Entry :=
  r.sorted.filter fun e => isActive enabled disabled e.id e.enabledByDefault

end SeamLint.Rule
