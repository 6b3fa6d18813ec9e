import SeamLint.Scan.Fault
import SeamLint.Snapshot.Document

set_option autoImplicit false

/-! # Snapshot files

Trees are read from snapshot files. A file that cannot be used is noted and left out, and
the others are read on.
-/

namespace SeamLint.Scan

open SeamLint.Code SeamLint.Data SeamLint.Files SeamLint.Snapshot

/-- Why a snapshot file cannot be used. -/
inductive SnapshotFault where
  | notFound (path : String)
  | unreadable (path : String) (fault : FileFault)
  | unparsable (path : String) (why : String)
  | document (fault : DecodeFault)

/-- The wording of a fault. -/
def SnapshotFault.message : SnapshotFault → String
  | .notFound path => placedMessage (some path) "Snapshot file not found"
  | .unreadable path fault => placedMessage (some path) s!"Cannot read snapshot: {fault.message}"
  | .unparsable path why => placedMessage (some path) s!"Cannot parse snapshot: {why}"
  | .document fault => fault.message

/-- A file that is left out, or a fault that ends the run. -/
inductive LoadFault where
  | snapshot (fault : SnapshotFault)
  | integer (fault : Number.IntegerFault)

/-- The tree of a snapshot file. -/
def loadSnapshot (d : Disk) (path : String) : Except LoadFault Tree :=
  let file := Path.ofText path
  if !d.hasPath file then .error (.snapshot (.notFound path))
  else
    match d.readText file with
    | .error fault => .error (.snapshot (.unreadable path fault))
    | .ok text =>
        match parseDocument file text with
        | .error (.malformed why) => .error (.snapshot (.unparsable path why))
        | .error (.integer fault) => .error (.integer fault)
        | .ok document => (decode document (some path)).mapError fun fault => .snapshot (.document fault)

/-! ## Several files -/

/-- The endings of snapshot files. -/
def snapshotSuffixes : List String := [".json", ".yaml", ".yml"]

/-- A file in a directory is a snapshot: by its ending, and unless its name begins with a
dot. -/
def isSnapshot (p : Path) : Bool :=
  p.name.toList.head? != some '.' && snapshotSuffixes.contains p.suffix

/-- The snapshot files that a path means: those below a directory, or the path itself. -/
def snapshotsAt (d : Disk) (path : String) : List String :=
  let p := Path.ofText path
  match d.directory? p with
  | some place => (((d.filesBelow place).map p.below).filter isSnapshot).map Path.text
  | none => [p.text]

/-- The snapshot files that paths mean, one path after another. -/
def listSnapshots (d : Disk) (paths : List String) : List String := paths.flatMap (snapshotsAt d)

/-- What came of loading files: the trees, the files that were left out with the reason, and
the fault that ended it. -/
structure Loading where
  trees : List Tree := []
  skipped : List (String × SnapshotFault) := []
  stopped : Option Number.IntegerFault := none

/-- Loads files one after another. -/
def loadFiles (d : Disk) : List String → Loading
  | [] => {}
  | path :: rest =>
      match loadSnapshot d path with
      | .error (.integer fault) => { stopped := some fault }
      | .error (.snapshot fault) =>
          let others := loadFiles d rest
          { others with skipped := (path, fault) :: others.skipped }
      | .ok tree =>
          let others := loadFiles d rest
          { others with trees := tree :: others.trees }

/-- Loads the snapshot files that paths mean. -/
def loadTrees (d : Disk) (paths : List String) : Loading := loadFiles d (listSnapshots d paths)

/-- The errors of a report about files that were left out. -/
def Loading.errors (l : Loading) : List String :=
  l.skipped.map fun entry => s!"Error loading {entry.1}: {entry.2.message}"

/-- The lines that are logged about files that were left out. -/
def Loading.log (l : Loading) : List String :=
  l.skipped.map fun entry => s!"WARNING seamscan.scanner: Skipping {entry.2.message}"

/-! ## Scanning files -/

/-- Applies the rules of a configuration to loaded trees. The errors of loading come
first. -/
def scanLoaded (l : Loading) (config : Config) : Except Fault Finding.Report := do
  if let some fault := l.stopped then throw (.integer fault)
  let engine ← config.engine
  let report ← engine.report l.trees
  return { report with errors := l.errors ++ report.errors }

/-- Applies the rules of a configuration to the snapshot files that paths mean. -/
def scanPaths (d : Disk) (paths : List String) (config : Config) : Except Fault Finding.Report :=
  scanLoaded (loadTrees d paths) config

end SeamLint.Scan
