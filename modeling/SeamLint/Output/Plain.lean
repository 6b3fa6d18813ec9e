import SeamLint.Output.Basic

set_option autoImplicit false

/-! # Reports and rules as text

A report for reading: a line for each finding, a table of counts, a line for each error and
a closing line. The catalogue of rules is a table. Lines and tables are printed by a console.
-/

namespace SeamLint.Output

open SeamLint.Finding SeamLint.Rule

/-- The style of a severity. -/
def severityStyle : Severity → String
  | .error => "bold red"
  | .warning => "yellow"
  | .info => "cyan"
  | .hidden => "dim"

/-- A text in a style. -/
def styled (style text : String) : String := s!"[{style}]{text}[/{style}]"

section Console

variable (console : Console)

/-- The line of a finding at a place, with markup. -/
def remarkMarkup (r : Remark) (place : String) : String :=
  styled (severityStyle r.severity) r.severity.name ++ " " ++
    styled "bold" r.finding.ruleId ++ " " ++
    console.escape place ++ ": " ++ console.escape r.message

/-- The line of a finding. -/
def findingLine (severities : Severities) (color : Bool) (f : Finding) :
    Except OutputFault String := do
  let r ← remark severities f
  let place ← f.writtenPlace
  console.line color (remarkMarkup console r place)

/-- The line of an error. -/
def errorLine (color : Bool) (error : String) : Except OutputFault String := do
  console.line color (styled "red" "error" ++ " " ++ console.escape error)

/-- The row of a rule in the table of counts. -/
def countRow (entry : String × Nat) : Except OutputFault (List String) := do
  let d ← describe entry.1
  let count ← Number.written entry.2
  return [entry.1, d.title, count]

/-- The table of counts. -/
def countsGrid (r : Report) : Except OutputFault Grid := do
  let rows ← (r.byRule.mergeSort fun a b => a.1 ≤ b.1).mapM countRow
  return ⟨"Findings by rule", [⟨"Rule", false⟩, ⟨"Title", false⟩, ⟨"Count", true⟩], rows⟩

/-- The table of counts as text; without findings there is none. -/
def countsText (r : Report) (color : Bool) : Except OutputFault String := do
  if r.findings.isEmpty then return ""
  return console.table color (← countsGrid r)

/-- The closing line. -/
def closingLine (r : Report) (color : Bool) : Except OutputFault String := do
  let findings ← Number.written r.findings.length
  let trees ← Number.written r.trees
  console.line color s!"{findings} finding(s) in {trees} file(s)"

/-- A report as text. -/
def textReport (r : Report) (severities : Severities) (color : Bool) :
    Except OutputFault String := do
  let findings ← r.findings.mapM (findingLine console severities color)
  let counts ← countsText console r color
  let errors ← r.errors.mapM (errorLine console color)
  let closing ← closingLine console r color
  return Text.join "" findings ++ counts ++ Text.join "" errors ++ closing

/-! ## The catalogue -/

/-- The row of a rule. -/
def ruleRow (isActive : String → Bool) (d : Descriptor) : List String :=
  [d.id, d.category.name, d.severity.name, if isActive d.id then "yes" else "no", d.title]

/-- Rules as a table. -/
def rulesText (rules : List Descriptor) (isActive : String → Bool) (color : Bool) : String :=
  let columns : List Column :=
    [⟨"Rule", false⟩, ⟨"Category", false⟩, ⟨"Severity", false⟩, ⟨"Enabled", false⟩,
     ⟨"Title", false⟩]
  console.table color ⟨toolName ++ " rules", columns, rules.map (ruleRow isActive)⟩

end Console

end SeamLint.Output
