import SeamLint.Json.Writer
import SeamLint.Output.Basic

set_option autoImplicit false

/-! # Reports as JSON

The report as an object: a summary, the findings and the errors.
-/

namespace SeamLint.Output

open SeamLint.Data SeamLint.Finding

/-- An argument of a finding. -/
def argumentValue : Argument → Value
  | .text s => .text s
  | .number n => .int n

/-- Where a finding is. -/
def locationValue (f : Finding) : Value :=
  .object
    [field "path" (.text f.path),
     field "start_line" (.int f.span.startLine),
     field "start_column" (.int f.span.startColumn),
     field "end_line" (.int f.span.endLine),
     field "end_column" (.int f.span.endColumn)]

/-- The fields of a finding on its own. -/
def findingFields (f : Finding) : Fields :=
  [field "rule_id" (.text f.ruleId),
   field "location" (locationValue f),
   field "arguments" (.list (f.arguments.map argumentValue))]

/-- A finding with its severity and its message. -/
def remarkValue (r : Remark) : Value :=
  .object (findingFields r.finding ++
    [field "severity" (.text r.severity.name), field "message" (.text r.message)])

/-- How many findings each rule has. -/
def countsValue (r : Report) : Value :=
  .object (r.byRule.map fun entry => field entry.1 (.int entry.2))

/-- A list of texts. -/
def textsValue (texts : List String) : Value := .list (texts.map Value.text)

/-- The summary of a report. -/
def summaryValue (r : Report) : Value :=
  .object
    [field "count" (.int r.findings.length),
     field "trees_analyzed" (.int r.trees),
     field "by_rule" (countsValue r),
     field "rules_applied" (textsValue r.rules)]

/-- A report as an object. -/
def reportValue (r : Report) (severities : Severities) : Except OutputFault Value := do
  let remarks ← r.findings.mapM (remark severities)
  return .object
    [field "summary" (summaryValue r),
     field "findings" (.list (remarks.map remarkValue)),
     field "errors" (textsValue r.errors)]

/-- A report as JSON. -/
def jsonReport (r : Report) (severities : Severities) : Except OutputFault String := do
  Json.write (← reportValue r severities)

end SeamLint.Output
