import SeamLint.Finding.Report
import SeamLint.Output.Console
import SeamLint.Rule.Catalog

set_option autoImplicit false

/-! # What a report says about a finding

A finding only names its rule. How serious it is and how its message reads come from the
severities of the run and from the catalogue.
-/

namespace SeamLint.Output

open SeamLint.Finding SeamLint.Rule

/-- The name of the tool. -/
def toolName : String := "seamscan"

/-- The version of the tool. -/
def toolVersion : String := "0.3.0"

/-- Why a report cannot be written. -/
inductive OutputFault where
  | unknownRule (id : String)
  | wording (fault : FillFault)
  | unwritable (fault : Number.Unwritable)
  | markup (fault : MarkupFault)
  | unknownFormat (name : String)
deriving DecidableEq, Repr

/-- The wording of a fault. -/
def OutputFault.message : OutputFault → String
  | .unknownRule id => id
  | .wording fault => fault.message
  | .unwritable fault => fault.message
  | .markup fault => fault.message
  | .unknownFormat name => s!"Unknown report format: {name}"

instance : MonadLift (Except FillFault) (Except OutputFault) := ⟨fun x => x.mapError .wording⟩

instance : MonadLift (Except Number.Unwritable) (Except OutputFault) :=
  ⟨fun x => x.mapError .unwritable⟩

instance : MonadLift (Except MarkupFault) (Except OutputFault) := ⟨fun x => x.mapError .markup⟩

/-- The facts about a rule of the catalogue. -/
def describe (id : String) : Except OutputFault Descriptor :=
  match descriptor? id with
  | some d => .ok d
  | none => .error (.unknownRule id)

/-- How serious a finding of a rule is: as given, or else as the catalogue has it. -/
def severityOf (severities : Severities) (d : Descriptor) : Severity :=
  (severities.get? d.id).getD d.severity

/-- A finding with all that is said about it. -/
structure Remark where
  finding : Finding
  descriptor : Descriptor
  severity : Severity
  message : String
deriving DecidableEq, Repr

/-- What is said about a finding. -/
def remark (severities : Severities) (f : Finding) : Except OutputFault Remark := do
  let d ← describe f.ruleId
  let message ← d.template.fill f.arguments
  return ⟨f, d, severityOf severities d, message⟩

end SeamLint.Output
