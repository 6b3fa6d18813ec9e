import SeamLint.Number.Integer
import SeamLint.Text.Basic

set_option autoImplicit false

/-! # The settings of a rule in a scope

A rule can be told to leave types, methods and namespaces alone, and its thresholds can be
changed. `RuleSettings` holds the result and answers the questions that rules ask.
-/

namespace SeamLint.Settings

open SeamLint.Text

/-! ## Texts of settings -/

/-- The key of an option of a rule. -/
def optionKey (ruleId suffix : String) : String := s!"dotnet_code_quality.{ruleId}.{suffix}"

/-- Entries of a list are separated by commas or semicolons. -/
def isSeparator (c : Char) : Bool := c == ',' || c == ';'

/-- The entries of a list, without the blanks around them and without empty ones. -/
def symbolList (text : String) : List String :=
  (((pieces isSeparator text.toList).map trim).filter fun entry => !entry.isEmpty).map
    String.ofList

/-- The entries of a list that may be unset. -/
def symbolListOf (text : Option String) : List String := (text.map symbolList).getD []

/-- The threshold that a text sets: the integer it denotes, or the default if it is unset
or no integer. -/
def readThreshold (text : Option String) (default : Int) : Except Number.IntegerFault Int :=
  match text with
  | none => .ok default
  | some t =>
      if Number.isIntegerShaped t.toList then Number.readInteger t else .ok default

/-! ## Settings -/

/-- What a rule is told in one scope. -/
structure RuleSettings where
  ruleId : String
  excludedTypes : List String := []
  excludedMethods : List String := []
  excludedNamespaces : List String := []
  thresholds : List (String × Int) := []
deriving DecidableEq, Repr

/-- A rule asked for a threshold that it does not declare. -/
structure UndeclaredThreshold where
  ruleId : String
  name : String
deriving DecidableEq, Repr

/-- The wording of the fault. -/
def UndeclaredThreshold.message (u : UndeclaredThreshold) : String :=
  s!"Rule {u.ruleId} declares no threshold named '{u.name}'"

namespace RuleSettings

/-- A threshold, or `default` if the rule does not declare it. -/
def thresholdOr (s : RuleSettings) (name : String) (default : Option Int) :
    Except UndeclaredThreshold Int :=
  match s.thresholds.find? fun entry => entry.1 == name with
  | some entry => .ok entry.2
  | none =>
      match default with
      | some n => .ok n
      | none => .error ⟨s.ruleId, name⟩

/-- A threshold that the rule declares. -/
def threshold (s : RuleSettings) (name : String) : Except UndeclaredThreshold Int :=
  s.thresholdOr name none

/-- A name that is known and not empty. -/
def isProper (name : Option String) : Bool :=
  match name with
  | some n => !n.isEmpty
  | none => false

/-- The type is to be left alone: it is listed behind the mark `T:`. -/
def isTypeExcluded (s : RuleSettings) (typeName : Option String) : Bool :=
  isProper typeName && s.excludedTypes.contains ("T:" ++ typeName.getD "")

/-- The method is to be left alone: it is listed with its type behind the mark `M:`. -/
def isMethodExcluded (s : RuleSettings) (typeName : Option String) (method : String) : Bool :=
  isProper typeName &&
    s.excludedMethods.contains ("M:" ++ typeName.getD "" ++ "." ++ method)

/-- The namespace `name` or one of those around it is listed, looking at most `steps` times.
The empty namespace is never listed. -/
def isListedAround (listed : List String) : Nat → List Char → Bool
  | 0, _ => false
  | steps + 1, name =>
      !name.isEmpty &&
        (listed.contains (String.ofList name) ||
          match beforeLast? '.' name with
          | some outer => isListedAround listed steps outer
          | none => false)

/-- The namespace is to be left alone: it or one of those around it is listed. Every
namespace around another is shorter. -/
def isNamespaceExcluded (s : RuleSettings) (name : String) : Bool :=
  isListedAround s.excludedNamespaces name.toList.length name.toList

end RuleSettings

end SeamLint.Settings
