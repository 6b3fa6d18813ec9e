import SeamLint.Text.Quoted

set_option autoImplicit false

/-! # Severities

How serious a finding is, from hidden to error.
-/

namespace SeamLint.Finding

/-- A name that no severity has. -/
structure UnknownSeverity where
  name : String
deriving DecidableEq, Repr

/-- The wording of the fault. -/
def UnknownSeverity.message (u : UnknownSeverity) : String :=
  s!"{Text.quoted u.name} is not a valid Severity"

/-- How serious a finding is. -/
inductive Severity where
  | error
  | warning
  | info
  | hidden
deriving DecidableEq, Repr, Inhabited

namespace Severity

/-- The name of a severity. -/
def name : Severity → String
  | error => "error"
  | warning => "warning"
  | info => "info"
  | hidden => "hidden"

/-- All severities, the most serious first. -/
def all : List Severity := [error, warning, info, hidden]

/-- The severity with the given name. -/
def ofName? (text : String) : Option Severity := all.find? fun s => s.name == text

/-- The severity with the given name, or the fault that there is none. -/
def ofName (text : String) : Except UnknownSeverity Severity :=
  match ofName? text with
  | some s => .ok s
  | none => .error ⟨text⟩

/-- The place of a severity in the order, hidden being zero. -/
def rank : Severity → Nat
  | hidden => 0
  | info => 1
  | warning => 2
  | error => 3

/-- `s` is at least as serious as `threshold`. -/
def reaches (s threshold : Severity) : Bool := threshold.rank ≤ s.rank

end Severity

end SeamLint.Finding
