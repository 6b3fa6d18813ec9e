import SeamLint.Code.Node
import SeamLint.Number.Integer

set_option autoImplicit false

/-! # Findings

A finding tells which rule found something, where, and what its message is to be filled
with. Findings are listed by path, place, rule and arguments, where arguments are compared
as the texts they are shown as.
-/

namespace SeamLint.Finding

/-- Something a message is filled with. -/
inductive Argument where
  | text (s : String)
  | number (n : Int)
deriving DecidableEq, Repr, Inhabited

/-- An argument as it is shown. -/
def Argument.shown : Argument → String
  | .text s => s
  | .number n => toString n

/-- The argument can be shown: numbers with too many digits are not. -/
def Argument.isShowable : Argument → Bool
  | .text _ => true
  | .number n => Number.isWritable n

/-- The text of an argument in a message. -/
def Argument.written : Argument → Except Number.Unwritable String
  | .text s => .ok s
  | .number n => Number.written n

theorem Argument.written_eq_ok {a : Argument} {text : String} :
    a.written = .ok text ↔ a.isShowable = true ∧ a.shown = text := by
  cases a with
  | text s => simp [Argument.written, Argument.isShowable, Argument.shown]
  | number n => exact Number.written_eq_ok

end SeamLint.Finding

namespace SeamLint

/-- One occurrence of what a rule looks for. -/
structure Finding where
  ruleId : String
  path : String
  span : Code.Span
  arguments : List Finding.Argument := []
deriving DecidableEq, Repr, Inhabited

end SeamLint

namespace SeamLint.Finding

open SeamLint.Code

/-- The place of a finding as `path:line:column`. -/
def writtenPlace (f : Finding) : Except Number.Unwritable String := do
  let row ← Number.written f.span.startLine
  let column ← Number.written f.span.startColumn
  return s!"{f.path}:{row}:{column}"

/-- All arguments of a finding can be shown. -/
def isShowable (f : Finding) : Bool := f.arguments.all Argument.isShowable

/-! ## The order of findings -/

/-- Compares two spans, by start and then by end. -/
def compareSpans (a b : Span) : Ordering :=
  (compare a.startLine b.startLine).then <|
  (compare a.startColumn b.startColumn).then <|
  (compare a.endLine b.endLine).then (compare a.endColumn b.endColumn)

/-- Compares two findings in the order in which they are listed. -/
protected def compare (a b : Finding) : Ordering :=
  (Ord.compare a.path b.path).then <|
  (compareSpans a.span b.span).then <|
  (Ord.compare a.ruleId b.ruleId).then
    (Text.compareTexts (a.arguments.map Argument.shown) (b.arguments.map Argument.shown))

/-- `a` may be listed before `b`. -/
def precedes (a b : Finding) : Bool := (a.compare b).isLE

/-- Findings in the order in which they are listed; equal ones keep their order. -/
def sortFindings (findings : List Finding) : List Finding :=
  findings.mergeSort precedes

end SeamLint.Finding
