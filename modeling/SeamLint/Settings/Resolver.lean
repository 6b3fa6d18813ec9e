import SeamLint.Settings.Options
import SeamLint.Settings.RuleSettings

set_option autoImplicit false

/-! # Resolving settings

Settings are put together from the answers of a provider of options. A lookup that fails
counts as unset, and a threshold that is no integer is ignored; both are noted. A resolver
keeps what it has resolved, so that the same question has the same answer later.
-/

namespace SeamLint.Settings

/-- The answer to a lookup. -/
inductive Answer where
  | text (s : String)
  | unset
  | failed
deriving DecidableEq, Repr

/-- Where options come from: the answer for a scope and a key. -/
abbrev Provider := String → String → Answer

/-- Options as a provider. -/
def Options.provider (o : Options) : Provider := fun scope key =>
  match o.lookup scope key with
  | some s => .text s
  | none => .unset

/-- The text of an answer; a failed lookup counts as unset. -/
def Answer.text? : Answer → Option String
  | .text s => some s
  | _ => none

/-! ## Notices -/

/-- Something worth telling the user while settings are resolved. -/
inductive Notice where
  | ignoredValue (text key : String) (default : Int)
  | failedLookup (key : String)
deriving DecidableEq, Repr

/-- The line that a notice is logged as. -/
def Notice.line : Notice → String
  | .ignoredValue text key default =>
      s!"WARNING seamscan.analysis.exclusions: Ignoring non-integer value {Text.quoted text} for {key}; using {default}"
  | .failedLookup key =>
      s!"ERROR seamscan.analysis.exclusions: Option lookup for {key} failed; treating it as unset"

/-- The notice of a lookup itself. -/
def Answer.notices (a : Answer) (key : String) : List Notice :=
  match a with
  | .failed => [.failedLookup key]
  | _ => []

/-- A text that is neither blank nor an integer is no threshold. -/
def isIgnored (text : String) : Bool :=
  !(Text.trim text.toList).isEmpty && !Number.isIntegerShaped text.toList

/-- The notices of a lookup for a threshold. -/
def thresholdNotices (a : Answer) (key : String) (default : Int) : List Notice :=
  a.notices key ++
    match a with
    | .text s => if isIgnored s then [.ignoredValue s key default] else []
    | _ => []

/-! ## Resolving -/

/-- A question for settings: of which rule, in which scope, with which thresholds by
default. -/
structure Request where
  ruleId : String
  scope : String
  defaults : List (String × Int) := []
deriving DecidableEq, Repr

/-- Thresholds in the order of their names. -/
def sortDefaults (defaults : List (String × Int)) : List (String × Int) :=
  defaults.mergeSort fun a b => a.1 ≤ b.1

/-- The request with its thresholds in the order of their names. -/
def Request.normal (r : Request) : Request := { r with defaults := sortDefaults r.defaults }

/-- What resolving comes to, and what was noticed on the way. -/
structure Resolution where
  settings : Except Number.IntegerFault RuleSettings
  notices : List Notice

/-- The answers to the lookups of one request, by the number of the lookup and its key. The
same key may be answered otherwise when it is looked up again. -/
abbrev Answers := Nat → String → Answer

/-- The thresholds that the answers set, up to the first that cannot be read, where the first
lookup has the given number. -/
def resolveThresholds (ruleId : String) (ask : Answers) :
    Nat → List (String × Int) → Except Number.IntegerFault (List (String × Int)) × List Notice
  | _, [] => (.ok [], [])
  | number, (name, default) :: rest =>
      let key := optionKey ruleId name
      let answer := ask number key
      let notices := thresholdNotices answer key default
      match readThreshold answer.text? default with
      | .error fault => (.error fault, notices)
      | .ok value =>
          let others := resolveThresholds ruleId ask (number + 1) rest
          (others.1.map ((name, value) :: ·), notices ++ others.2)

/-- Puts settings together from the answers to the keys of a rule. -/
def resolveWith (r : Request) (ask : Answers) : Resolution :=
  let typesKey := optionKey r.ruleId "excluded_types"
  let methodsKey := optionKey r.ruleId "excluded_methods"
  let namespacesKey := optionKey r.ruleId "excluded_namespaces"
  let types := ask 0 typesKey
  let methods := ask 1 methodsKey
  let namespaces := ask 2 namespacesKey
  let thresholds := resolveThresholds r.ruleId ask 3 r.normal.defaults
  { settings := thresholds.1.map fun values =>
      { ruleId := r.ruleId
        excludedTypes := symbolListOf types.text?
        excludedMethods := symbolListOf methods.text?
        excludedNamespaces := symbolListOf namespaces.text?
        thresholds := values }
    notices := types.notices typesKey ++ methods.notices methodsKey ++
      namespaces.notices namespacesKey ++ thresholds.2 }

/-- Resolves a request from a provider. -/
def resolve (provider : Provider) (r : Request) : Resolution :=
  resolveWith r fun _ => provider r.scope

/-! ## Keeping what was resolved -/

/-- What was resolved so far. As a rule that is settings, but what is kept for a request is
never looked into. -/
structure Resolver (α : Type := RuleSettings) where
  known : List (Request × α) := []
deriving Repr, Inhabited

/-- What was resolved for a request. -/
def Resolver.find? {α : Type} (resolver : Resolver α) (r : Request) : Option α :=
  (resolver.known.find? fun entry => entry.1 == r.normal).map Prod.snd

/-- Keeps something for a request, unless something is kept already, and returns what is
kept. -/
def Resolver.keep {α : Type} (resolver : Resolver α) (r : Request) (s : α) : α × Resolver α :=
  match resolver.find? r with
  | some kept => (kept, resolver)
  | none => (s, ⟨resolver.known ++ [(r.normal, s)]⟩)

/-- Resolves a request, at most once for each request. -/
def Resolver.resolve (resolver : Resolver) (provider : Provider) (r : Request) :
    Resolution × Resolver :=
  match resolver.find? r with
  | some kept => (⟨.ok kept, []⟩, resolver)
  | none =>
      let fresh := Settings.resolve provider r
      match fresh.settings with
      | .error _ => (fresh, resolver)
      | .ok s =>
          let kept := resolver.keep r s
          ({ fresh with settings := .ok kept.1 }, kept.2)

end SeamLint.Settings
