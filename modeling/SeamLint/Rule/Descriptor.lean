import SeamLint.Finding.Basic
import SeamLint.Finding.Severity
import SeamLint.Text.Basic

set_option autoImplicit false

/-! # Descriptors of rules

The fixed facts about a rule: its id and title, how its message is worded, and how serious
it is. The wording of a message is a template whose slots are filled with the arguments of
a finding.
-/

namespace SeamLint.Rule

open SeamLint.Finding

/-! ## Templates -/

/-- A part of a template: text, or the place of an argument. -/
inductive Part where
  | text (s : String)
  | slot (index : Nat)
deriving DecidableEq, Repr

/-- The wording of a message. -/
abbrev Template := List Part

/-- A template was filled with too few arguments: the first slot that stayed empty. -/
structure MissingArgument where
  index : Nat
deriving DecidableEq, Repr

/-- The wording of the fault. -/
def MissingArgument.message (m : MissingArgument) : String :=
  s!"Replacement index {m.index} out of range for positional args tuple"

/-- Why a template cannot be filled. -/
inductive FillFault where
  | missing (fault : MissingArgument)
  | unwritable (fault : Number.Unwritable)
deriving DecidableEq, Repr

/-- The wording of a fault. -/
def FillFault.message : FillFault → String
  | .missing fault => fault.message
  | .unwritable fault => fault.message

/-- The text of a part once arguments are known. -/
def Part.fill (arguments : List Argument) : Part → Except FillFault String
  | .text s => .ok s
  | .slot index =>
      match arguments[index]? with
      | some argument => argument.written.mapError .unwritable
      | none => .error (.missing ⟨index⟩)

/-- The message for the given arguments. Arguments without a slot are left out. -/
def Template.fill (template : Template) (arguments : List Argument) :
    Except FillFault String := do
  return Text.join "" (← template.mapM (Part.fill arguments))

/-- A part as it is written in the catalogue: slots as numbers in braces. -/
def Part.source : Part → String
  | .text s => s
  | .slot index => "\x7b" ++ toString index ++ "\x7d"

/-- A template as it is written in the catalogue. -/
def Template.source (template : Template) : String := Text.join "" (template.map Part.source)

/-! ## Descriptors -/

/-- The area a rule belongs to. -/
inductive Category where
  | directDependencies
  | staticDependencies
  | inheritanceBlockers
  | globalState
  | infrastructure
  | complexity
deriving DecidableEq, Repr

/-- The name of a category. -/
def Category.name : Category → String
  | .directDependencies => "DirectDependencies"
  | .staticDependencies => "StaticDependencies"
  | .inheritanceBlockers => "InheritanceBlockers"
  | .globalState => "GlobalState"
  | .infrastructure => "Infrastructure"
  | .complexity => "Complexity"

/-- The fixed facts about a rule. -/
structure Descriptor where
  id : String
  title : String
  template : Template
  category : Category
  severity : Severity
  enabledByDefault : Bool := true
  description : String := ""
deriving DecidableEq, Repr

/-- Where the documentation of rules is. -/
def helpBase : String :=
  "https://github.com/iirorahkonen/Seams.Analyzers/blob/main/docs/rules/"

/-- Where the documentation of a rule is. -/
def Descriptor.helpUri (d : Descriptor) : String := helpBase ++ d.id ++ ".md"

end SeamLint.Rule
