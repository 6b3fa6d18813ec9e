import SeamLint.Output.Document

set_option autoImplicit false

/-! # Reports in the static analysis interchange format

The report as a SARIF log with one run: the rules that found something, in the order of
their ids, and a result for every finding that refers to its rule by id and index.
-/

namespace SeamLint.Output

open SeamLint.Data SeamLint.Finding SeamLint.Rule

/-- The version of the format. -/
def sarifVersion : String := "2.1.0"

/-- Where the schema of the format is. -/
def sarifSchema : String := "https://json.schemastore.org/sarif-2.1.0.json"

/-- The word of the format for a severity. -/
def sarifLevel : Severity → String
  | .error => "error"
  | .warning => "warning"
  | .info => "note"
  | .hidden => "none"

/-- A text as a message of the format. -/
def sarifText (text : String) : Value := .object [field "text" (.text text)]

/-- The ids of the rules that found something, in order. -/
def foundIds (r : Report) : List String := (r.byRule.map Prod.fst).mergeSort

/-- A rule of the run. -/
def sarifRule (d : Descriptor) : Value :=
  .object
    [field "id" (.text d.id),
     field "name" (.text d.title),
     field "shortDescription" (sarifText d.title),
     field "fullDescription" (sarifText (if d.description.isEmpty then d.title else d.description)),
     field "helpUri" (.text d.helpUri),
     field "properties" (.object [field "category" (.text d.category.name)])]

/-- The lines and columns of a finding. Lines are counted from one, so a finding without a
place has none. -/
def sarifRegion (f : Finding) : Fields :=
  if 1 ≤ f.span.startLine then
    [field "region" (.object
      [field "startLine" (.int f.span.startLine),
       field "startColumn" (.int f.span.startColumn),
       field "endLine" (.int f.span.endLine),
       field "endColumn" (.int f.span.endColumn)])]
  else []

/-- A path as the address of a file, with slashes only. -/
def sarifUri (path : String) : String := Text.replace '\\' '/' path

/-- Where a finding is. -/
def sarifLocation (f : Finding) : Value :=
  .object [field "physicalLocation" (.object
    (field "artifactLocation" (.object [field "uri" (.text (sarifUri f.path))]) ::
      sarifRegion f))]

/-- A result of the run, where `ids` are the ids of its rules. -/
def sarifResult (ids : List String) (r : Remark) : Value :=
  .object
    [field "ruleId" (.text r.finding.ruleId),
     field "ruleIndex" (.int (ids.idxOf r.finding.ruleId)),
     field "level" (.text (sarifLevel r.severity)),
     field "message" (sarifText r.message),
     field "locations" (.list [sarifLocation r.finding])]

/-- An error of the run. -/
def sarifNotification (error : String) : Value :=
  .object [field "level" (.text "error"), field "message" (sarifText error)]

/-- A report as a log. -/
def sarifValue (r : Report) (severities : Severities) : Except OutputFault Value := do
  let ids := foundIds r
  let remarks ← r.findings.mapM (remark severities)
  let rules ← ids.mapM describe
  let driver := Value.object
    [field "name" (.text toolName),
     field "version" (.text toolVersion),
     field "rules" (.list (rules.map sarifRule))]
  let invocation := Value.object
    [field "executionSuccessful" (.bool r.errors.isEmpty),
     field "toolExecutionNotifications" (.list (r.errors.map sarifNotification))]
  let run := Value.object
    [field "tool" (.object [field "driver" driver]),
     field "results" (.list (remarks.map (sarifResult ids))),
     field "invocations" (.list [invocation])]
  return .object
    [field "version" (.text sarifVersion),
     field "$schema" (.text sarifSchema),
     field "runs" (.list [run])]

/-- A report as a written log. -/
def sarifReport (r : Report) (severities : Severities) : Except OutputFault String := do
  Json.write (← sarifValue r severities)

end SeamLint.Output
