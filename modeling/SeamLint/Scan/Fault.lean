import SeamLint.Files.Disk
import SeamLint.Json.Reader
import SeamLint.Output.Basic
import SeamLint.Scan.Config
import SeamLint.Yaml.Reader

set_option autoImplicit false

/-! # What can go wrong in a run

A fault of a configuration is reported to the user. Everything else ends the run, unless the run
never ends.
-/

namespace SeamLint.Scan

open SeamLint.Data SeamLint.Files SeamLint.Output

/-- Why a configuration file cannot be used. -/
inductive ConfigFileFault where
  | notFound (path : String)
  | unparsable (path : String) (why : String)
  | notMapping (path : String)
deriving DecidableEq, Repr

/-- The wording of a fault. -/
def ConfigFileFault.message : ConfigFileFault → String
  | .notFound path => s!"Config file not found: {path}"
  | .unparsable path why => s!"Cannot parse config file {path}: {why}"
  | .notMapping path => s!"Config file {path} must contain a mapping at the top level"

/-- What can go wrong in a run. -/
inductive Fault where
  | configFile (fault : ConfigFileFault)
  | config (fault : ConfigFault)
  | file (fault : FileFault)
  | integer (fault : Number.IntegerFault)
  | unwritable (fault : Number.Unwritable)
  | output (fault : OutputFault)
  /-- There is no end to the run. -/
  | endless

/-- The wording of a fault. -/
def Fault.message : Fault → String
  | .configFile fault => fault.message
  | .config fault => fault.message
  | .file fault => fault.message
  | .integer fault => fault.message
  | .unwritable fault => fault.message
  | .output fault => fault.message
  | .endless => ""

/-- The fault is about a configuration and is reported to the user. -/
def Fault.isReported : Fault → Bool
  | .configFile _ => true
  | .config (.invalid _) => true
  | _ => false

instance : MonadLift (Except ConfigFileFault) (Except Fault) := ⟨fun x => x.mapError .configFile⟩
instance : MonadLift (Except ConfigFault) (Except Fault) := ⟨fun x => x.mapError .config⟩
instance : MonadLift (Except AccessFault) (Except Fault) :=
  ⟨fun x => x.mapError fun fault => .config (.access fault)⟩
instance : MonadLift (Except FileFault) (Except Fault) := ⟨fun x => x.mapError .file⟩
instance : MonadLift (Except (Code.Stop Number.Unwritable)) (Except Fault) :=
  ⟨fun x => x.mapError fun
    | .raised fault => .unwritable fault
    | .endless => .endless⟩
instance : MonadLift (Except OutputFault) (Except Fault) := ⟨fun x => x.mapError .output⟩

/-! ## Documents -/

/-- Why the text of a file is no document. -/
inductive ParseFault where
  | malformed (why : String)
  | integer (fault : Number.IntegerFault)
deriving DecidableEq, Repr

/-- The wording of a fault in a YAML text. -/
def yamlFaultText : String := "<yaml>"

/-- The fault of a JSON text. -/
def ParseFault.ofJson (fault : Json.Fault) (text : String) : ParseFault :=
  match fault.cause with
  | .longInteger digits => .integer (.tooLong digits)
  | _ => .malformed (fault.message text)

/-- The fault of a YAML text. -/
def ParseFault.ofYaml : Yaml.Fault → ParseFault
  | .longInteger digits => .integer (.tooLong digits)
  | _ => .malformed yamlFaultText

/-- Reads the text of a file: JSON if the name of the file says so, else YAML. -/
def parseDocument (path : Path) (text : String) : Except ParseFault Value :=
  if path.suffix = ".json" then (Json.read text).mapError fun fault => .ofJson fault text
  else (Yaml.read text).mapError .ofYaml

end SeamLint.Scan
