import SeamLint.Data.Merge
import SeamLint.Finding.Report
import SeamLint.Number.Integer
import SeamLint.Rule.Catalog
import SeamLint.Scan.Engine

set_option autoImplicit false

/-! # Configurations

A configuration is an object of settings: which rules are on, how serious their findings
are, options for rules, the form of the report and the number of workers. It is made from
the default settings and the user's own on top of them, and `Config.validate` looks at the
settings that every run needs. The others are looked at when they are used.
-/

namespace SeamLint.Scan

open SeamLint.Data SeamLint.Finding SeamLint.Rule SeamLint.Settings

/-- A setting that makes no sense. -/
inductive Invalid where
  | unknownFormat (name : String)
  | unknownSeverity (value : Value) (place : String)
  | sectionsNotList
  | workersNotInteger
  | workersTooFew

/-- The forms a report can have. -/
def reportFormats : List String := ["text", "json", "sarif"]

/-- The wording of a fault. -/
def Invalid.message : Invalid → String
  | .unknownFormat name =>
      let choices := Text.join ", " reportFormats
      s!"Unknown report format '{name}'; expected one of: {choices}"
  | .unknownSeverity value place =>
      let choices := Text.join ", " (Severity.all.map Severity.name)
      s!"Invalid severity '{value.shown}' for {place}; expected one of: {choices}"
  | .sectionsNotList => "'sections' must be a list of \x7bfiles, options\x7d mappings"
  | .workersNotInteger => "'engine.max_workers' must be an integer"
  | .workersTooFew => "'engine.max_workers' must be at least 1"

/-- Why a configuration cannot be used: a setting makes no sense, or one cannot be taken apart
or has no text. -/
inductive ConfigFault where
  | invalid (cause : Invalid)
  | access (fault : AccessFault)

/-- The wording of a fault. -/
def ConfigFault.message : ConfigFault → String
  | .invalid cause => cause.message
  | .access fault => fault.message

instance : MonadLift (Except AccessFault) (Except ConfigFault) := ⟨fun x => x.mapError .access⟩

/-- The settings of a run and the file they came from. -/
structure Config where
  data : Fields
  source : Option String := none

/-! ## Default settings -/

/-- The number of workers by default. -/
def defaultWorkers : Nat := 4

/-- The settings that hold unless they are overridden. -/
def defaultSettings : Fields :=
  [field "version" (.int 1),
   field "rules" (.object
    [field "enabled" (.list []),
     field "disabled" (.list []),
     field "severities" (.object [])]),
   field "options" (.object []),
   field "sections" (.list []),
   field "reporting" (.object
    [field "format" (.text "text"),
     field "fail_on_severity" (.text Severity.warning.name)]),
   field "engine" (.object [field "max_workers" (.int defaultWorkers)])]

/-- The default configuration. -/
def Config.default : Config := ⟨defaultSettings, none⟩

/-- The default settings as a file. -/
def defaultConfigText : String :=
  "version: 1\n" ++
  "rules:\n" ++
  "  enabled: []\n" ++
  "  disabled: []\n" ++
  "  severities: \x7b\x7d\n" ++
  "options: \x7b\x7d\n" ++
  "sections: []\n" ++
  "reporting:\n" ++
  "  format: text\n" ++
  "  fail_on_severity: warning\n" ++
  "engine:\n" ++
  "  max_workers: 4\n"

/-! ## Reading settings -/

/-- A value, or the other one if it does not count as given. -/
def givenOr (v other : Value) : Value := if v.isGiven then v else other

/-- The empty object. -/
def noFields : Value := .object []

namespace Config

/-- A group of settings; one that is not given is empty. -/
def group (c : Config) (name : String) : Value := givenOr (Fields.getD c.data name) noFields

/-- A setting of the rules as a list. -/
def ruleList (c : Config) (name : String) : Except AccessFault (List Value) := do
  let setting ← (c.group "rules").lookUp name
  (givenOr (setting.getD .null) (.list [])).elements

/-- What is listed as enabled. -/
def enabledRules (c : Config) : Except AccessFault (List Value) := c.ruleList "enabled"

/-- What is listed as disabled. -/
def disabledRules (c : Config) : Except AccessFault (List Value) := c.ruleList "disabled"

/-- The value is the text of an id. -/
def isId (id : String) : Value → Bool
  | .text s => s == id
  | _ => false

/-- The rule is on, given whether it is on by default. -/
def ruleEnabled (c : Config) (id : String) (byDefault : Bool) : Except AccessFault Bool := do
  if (← c.disabledRules).any (isId id) then return false
  if byDefault then return true
  return (← c.enabledRules).any (isId id)

/-- The severities that the user gives to rules. -/
def severityOverrides (c : Config) : Except AccessFault Fields := do
  let setting ← (c.group "rules").lookUp "severities"
  (givenOr (setting.getD .null) noFields).asFields

/-- The severity that a value names, in any case of its letters. -/
def readSeverity (value : Value) (place : String) : Except ConfigFault Severity := do
  match Severity.ofName? (Text.lower (← value.asText)) with
  | some severity => return severity
  | none => throw (.invalid (.unknownSeverity value place))

/-- The severity of the rule with a key. -/
def keySeverity (c : Config) (key : Key) (byDefault : Severity) :
    Except ConfigFault Severity := do
  match (← c.severityOverrides).find? key with
  | none | some .null => return byDefault
  | some value => readSeverity value ("rules.severities." ++ (← key.asText))

/-- The severity of a rule. -/
def ruleSeverity (c : Config) (id : String) (byDefault : Severity) :
    Except ConfigFault Severity :=
  c.keySeverity (.text id) byDefault

/-- The severities of all rules. -/
def severities (c : Config) : Except ConfigFault Severities :=
  descriptors.mapM fun d => do return (d.id, ← c.ruleSeverity d.id d.severity)

/-- The options of rules. -/
def options (c : Config) : Except AccessFault Options :=
  Options.ofValues (Fields.getD c.data "options") (Fields.getD c.data "sections")

/-- The form of the report. -/
def reportFormat (c : Config) : Except AccessFault String := do
  let setting ← (c.group "reporting").lookUp "format"
  (setting.getD (.text "text")).asText

/-- How serious a finding must be to make the run fail. -/
def failOn (c : Config) : Except ConfigFault Severity := do
  let setting ← (c.group "reporting").lookUp "fail_on_severity"
  readSeverity (setting.getD (.text Severity.warning.name)) "reporting.fail_on_severity"

/-- The integer that a value stands for. A fraction is cut off. -/
def readWorkers : Value → Except ConfigFault Int
  | .bool b => .ok (if b then 1 else 0)
  | .int n => .ok n
  | .real x =>
      match Number.Binary.ofFloat x with
      | .infinite _ => .error (.access .infinite)
      | number =>
          match number.whole? with
          | some n => .ok n
          | none => .error (.invalid .workersNotInteger)
  | .text s => (Number.readInteger s).mapError fun _ => .invalid .workersNotInteger
  | _ => .error (.invalid .workersNotInteger)

/-- The number of workers. -/
def maxWorkers (c : Config) : Except ConfigFault Int := do
  let setting ← (c.group "engine").lookUp "max_workers"
  readWorkers (setting.getD (.int defaultWorkers))

/-! ## Making configurations -/

/-- The sections are a list. -/
def hasSectionList (c : Config) : Bool :=
  match Fields.get? c.data "sections" with
  | none | some (.list _) => true
  | _ => false

/-- Looks at the settings that every run needs: the form of the report, the severities, the
sections and the number of workers, in this order. -/
def validate (c : Config) : Except ConfigFault Unit := do
  let format ← c.reportFormat
  if !reportFormats.contains format then throw (.invalid (.unknownFormat format))
  discard c.failOn
  for entry in ← c.severityOverrides do
    discard (c.keySeverity entry.1 .info)
  if !c.hasSectionList then throw (.invalid .sectionsNotList)
  if (← c.maxWorkers) < 1 then throw (.invalid .workersTooFew)

/-- The default settings overridden by the user's own. -/
def ofValue (overrides : Value) (source : Option String) : Except ConfigFault Config := do
  let config : Config := ⟨mergeFields defaultSettings (← overrides.fields), source⟩
  config.validate
  return config

/-- The rules that are on. -/
def rules (c : Config) : Except AccessFault (List Rule) := do
  let enabled ← c.enabledRules
  let disabled ← c.disabledRules
  selectRules (.list enabled) (.list disabled)

/-- The engine of a configuration. -/
def engine (c : Config) : Except AccessFault Engine := do
  let rules ← c.rules
  let options ← c.options
  return { rules, provider := options.provider }

end Config

end SeamLint.Scan
