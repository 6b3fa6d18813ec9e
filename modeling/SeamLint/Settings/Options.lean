import SeamLint.Data.Access
import SeamLint.Data.Shown
import SeamLint.Text.Basic
import SeamLint.Text.Pattern

set_option autoImplicit false

/-! # Options in layers

An option is a text under a key, valid for a scope, which is the path of a source file. The
shared options hold for every scope; each section adds options for the scopes that match
its pattern. Where several layers give a key, the last one counts.
-/

namespace SeamLint.Settings

open SeamLint.Data SeamLint.Text

/-- Texts under keys. -/
abbrev Entries := List (String × String)

namespace Entries

/-- The text under a key. -/
def get? (key : String) : Entries → Option String
  | [] => none
  | (k, text) :: rest => if k = key then some text else get? key rest

/-- Stores a text under a key: in place if the key is there already, else at the end. -/
def put (key text : String) : Entries → Entries
  | [] => [(key, text)]
  | (k, old) :: rest => if k = key then (k, text) :: rest else (k, old) :: put key text rest

end Entries

/-- Options for the files that match a pattern. -/
structure Section where
  pattern : String
  entries : Entries
deriving DecidableEq, Repr

/-- The shared options and the sections on top of them. -/
structure Options where
  shared : Entries := []
  sections : List Section := []
deriving DecidableEq, Repr, Inhabited

/-- The section holds for a scope: its pattern matches the whole path or, if it has no
slash, the file name. Backslashes in the path count as slashes. -/
def Section.appliesTo (s : Section) (scope : String) : Bool :=
  let path := Text.replace '\\' '/' scope
  matchesPattern s.pattern path ||
    (!s.pattern.toList.contains '/' &&
      matchesPattern s.pattern (String.ofList (afterLast '/' path.toList)))

/-- The text that a section gives for a key in a scope. -/
def Section.get? (s : Section) (scope key : String) : Option String :=
  match Entries.get? key s.entries with
  | some text => if s.appliesTo scope then some text else none
  | none => none

/-- The text of the last layer that gives one. -/
def Options.lookup (o : Options) (scope key : String) : Option String :=
  o.sections.foldl (fun found s => (s.get? scope key).or found) (Entries.get? key o.shared)

/-! ## Options from configuration values -/

/-- The text of an option value. Null is no value, and a list is its items with commas
between them. -/
def optionText : Value → Except AccessFault (Option String)
  | .null => .ok none
  | .bool b => .ok (some (if b then "true" else "false"))
  | .list items => do return some (join "," (← items.mapM Value.asText))
  | v => do return some (← v.asText)

/-- Adds the entry of a field, if it has a value, under the text of its key. -/
def addEntry (entries : Entries) (field : Key × Value) : Except AccessFault Entries := do
  match ← optionText field.2 with
  | some text => return Entries.put (← field.1.asText) text entries
  | none => return entries

/-- The entries of fields. -/
def entriesOf (fields : Fields) : Except AccessFault Entries := fields.foldlM addEntry []

/-- The entries of a value that may not be given. -/
def entriesOfValue (v : Value) : Except AccessFault Entries := do
  if v.isGiven then entriesOf (← v.fields) else return []

/-- The pattern of a section that has none. -/
def defaultPattern : String := "*"

/-- A section from its configuration value. -/
def Section.ofValue (v : Value) : Except AccessFault Section := do
  let options ← v.lookUp "options"
  let entries ← entriesOfValue (options.getD .null)
  let files ← v.lookUp "files"
  return ⟨← (files.getD (.text defaultPattern)).asText, entries⟩

/-- Options from their two configuration values. -/
def Options.ofValues (shared sections : Value) : Except AccessFault Options := do
  let entries ← entriesOfValue shared
  let parts ← if sections.isGiven then sections.elements else pure []
  return ⟨entries, ← parts.mapM Section.ofValue⟩

end SeamLint.Settings
