import SeamLint.Scan.Fault

set_option autoImplicit false

/-! # Configuration files

A configuration file is given by its path, or the nearest one above a place is taken. Its
settings override the default ones.
-/

namespace SeamLint.Scan

open SeamLint.Data SeamLint.Files

/-! ## Finding -/

/-- The names of configuration files, in the order in which they are looked for. -/
def configNames : List String := [".seamscan.yaml", ".seamscan.yml", ".seamscan.json"]

/-- The directories from a place up to the root. -/
def upward (place : List String) : List (List String) :=
  (List.range (place.length + 1)).map fun steps => place.take (place.length - steps)

/-- The configuration file of a directory. -/
def configIn? (d : Disk) (directory : List String) : Option Path :=
  (configNames.find? fun name => (d.entryAt? (directory ++ [name])).isSome).map fun name =>
    ⟨true, directory ++ [name]⟩

/-- The directory that a search starts in: of a file, the one that holds it. -/
def searchStart (d : Disk) (place : List String) : List String :=
  match d.entryAt? place with
  | some (.file _) => place.dropLast
  | _ => place

/-- The nearest configuration file at a path or above it. -/
def findConfig (d : Disk) (start : String) : Option Path :=
  (upward (searchStart d (d.resolve (.ofText start)))).findSome? (configIn? d)

/-! ## Loading -/

/-- A value as an object; one that does not count as given is empty if it comes from YAML. -/
def settingsOf (path : String) (v : Value) : Except ConfigFileFault Value :=
  let v := if (Path.ofText path).suffix = ".json" then v else givenOr v noFields
  match v with
  | .object _ => .ok v
  | _ => .error (.notMapping path)

/-- The settings in a configuration file. -/
def loadSettings (d : Disk) (path : String) : Except Fault Value := do
  let file := Path.ofText path
  if !d.hasPath file then throw (.configFile (.notFound path))
  let text ← d.readText file
  match parseDocument file text with
  | .ok v => settingsOf path v
  | .error (.malformed why) => throw (.configFile (.unparsable path why))
  | .error (.integer fault) => throw (.integer fault)

/-- The configuration of a file; without a path, the default one. -/
def loadConfig (d : Disk) (path : Option String) : Except Fault Config :=
  match path with
  | none => .ok Config.default
  | some p =>
      if p.isEmpty then .ok Config.default
      else do
        let settings ← loadSettings d p
        Config.ofValue settings (some p)

/-- The configuration of the nearest file above a place. -/
def discoverConfig (d : Disk) (start : String) : Except Fault Config :=
  loadConfig d ((findConfig d start).map Path.text)

/-- The configuration of the given file, or else of the nearest one above a place. -/
def chooseConfig (d : Disk) (path : Option String) (start : String) : Except Fault Config :=
  match path.filter fun p => !p.isEmpty with
  | some p => loadConfig d (some p)
  | none => discoverConfig d start

end SeamLint.Scan
