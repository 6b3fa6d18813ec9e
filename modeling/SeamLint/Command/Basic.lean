import SeamLint.Command.Arguments
import SeamLint.Scan.Config

set_option autoImplicit false

/-! # Commands

The tool has three commands: to scan snapshots, to list the rules and to create a
configuration file.
-/

namespace SeamLint.Command

/-- What a scan is asked to do. -/
structure ScanRequest where
  paths : List String := ["."]
  config : Option String := none
  format : Option String := none
  output : Option String := none
  color : Bool := false
deriving DecidableEq, Repr

end SeamLint.Command

namespace SeamLint

/-- A command with its options. -/
inductive Command where
  | scan (request : Command.ScanRequest)
  | rules (config : Option String)
  | init (force : Bool)
deriving DecidableEq, Repr

end SeamLint

namespace SeamLint.Command

open SeamLint.Text

/-! ## Options -/

/-- The option that asks for help. -/
def helpFlag : Flag := { names := ["-h", "--help"], role := .help }

/-- The option for a configuration file. -/
def configFlag : Flag := { names := ["-c", "--config"], role := .value }

/-- The options in front of a command. -/
def generalFlags : List Flag :=
  [helpFlag,
   { names := ["--version"], role := .version },
   { names := ["-v", "--verbose"], role := .switch }]

/-- The options of a scan. The number of workers must be an integer; how many there are does
not show in the result. -/
def scanFlags : List Flag :=
  [helpFlag,
   configFlag,
   { names := ["-f", "--format"], role := .value, accepts := Scan.reportFormats.contains },
   { names := ["-o", "--output"], role := .value },
   { names := ["-j", "--jobs"], role := .value, accepts := fun s => (Number.readInteger s).isOk },
   { names := ["--color"], role := .switch }]

/-- The options of the list of rules. -/
def rulesFlags : List Flag := [helpFlag, configFlag]

/-- The options of the creation of a configuration file. -/
def initFlags : List Flag := [helpFlag, { names := ["-f", "--force"], role := .switch }]

/-! ## Reading a command line -/

/-- The operands, or else the default ones if there are none. -/
def operandsOr (r : Reading) (byDefault : List String) : List String :=
  match r.operands with
  | some (path :: rest) => path :: rest
  | _ => byDefault

/-- The scan that was read. -/
def scanRequest (r : Reading) : ScanRequest where
  paths := operandsOr r ["."]
  config := r.value? "--config"
  format := r.value? "--format"
  output := r.value? "--output"
  color := r.isSet "--color"

/-- Reads the words behind the name of a command. -/
def readCommand (name : String) (words : List String) : Except Stop (Command × List String) :=
  match name with
  | "scan" => do
      let r ← readWords scanFlags true words
      return (.scan (scanRequest r), r.extras)
  | "rules" => do
      let r ← readWords rulesFlags false words
      return (.rules (r.value? "--config"), r.extras)
  | "init" => do
      let r ← readWords initFlags false words
      return (.init (r.isSet "--force"), r.extras)
  | _ => .error .refused

/-- Reads the words in front of the command, and then the command. `reading` is what was read
before. -/
def readGeneral (reading : Reading) : List (Word × String) → Except Stop Command
  | [] => .error .refused
  | (.operand, name) :: rest => do
      let (command, extras) ← readCommand name (rest.map Prod.snd)
      if reading.extras.isEmpty && extras.isEmpty then return command
      throw .refused
  | (.divider, _) :: _ => .error .refused
  | (.unknown, word) :: rest =>
      readGeneral { reading with extras := reading.extras ++ [word] } rest
  | (.option mention, word) :: rest => do
      let joined ← expand generalFlags (word.length + 1) mention
      readGeneral (← reading.take joined) rest

/-- Reads a command line. -/
def ofWords (words : List String) : Except Stop Command := do
  readGeneral {} (← classifyWords generalFlags words)

end SeamLint.Command
