import SeamLint.Output.Plain
import SeamLint.Output.Sarif

set_option autoImplicit false

/-! # Forms of reports

A report is written as text, as JSON or as a SARIF log; the form is chosen by its name.
-/

namespace SeamLint.Output

open SeamLint.Finding

/-- Writes a report in the named form. Only text goes through the console and is coloured. -/
def formatReport (console : Console) (format : String) (r : Report) (severities : Severities)
    (color : Bool) : Except OutputFault String :=
  if format = "text" then textReport console r severities color
  else if format = "json" then jsonReport r severities
  else if format = "sarif" then sarifReport r severities
  else .error (.unknownFormat format)

end SeamLint.Output
