import SeamLint.Files.Path
import SeamLint.Text.Quoted
import SeamLint.Text.Utf8

set_option autoImplicit false

/-! # Files

The files that a run can see, as a value: every file and directory under its place, which is
the list of names from the root. A run takes a disk and gives back a disk.
-/

namespace SeamLint.Files

open SeamLint.Text

/-- What stands at a place. -/
inductive Entry where
  | directory
  | file (bytes : List UInt8)
deriving DecidableEq, Repr

/-- The directories and files, and the working directory. The root itself is not listed. -/
structure Disk where
  entries : List (List String × Entry) := []
  working : List String := []
deriving Repr, Inhabited

/-! ## Faults -/

/-- What the system says about a file that cannot be used. -/
inductive SystemFault where
  | missing
  | notDirectory
  | isDirectory
deriving DecidableEq, Repr

/-- The number and the words of the system. -/
def SystemFault.words : SystemFault → String
  | .missing => "[Errno 2] No such file or directory"
  | .notDirectory => "[Errno 20] Not a directory"
  | .isDirectory => "[Errno 21] Is a directory"

/-- Why a file cannot be read or written. -/
inductive FileFault where
  | system (fault : SystemFault) (path : Path)
  | bytes (fault : Utf8Fault)
deriving DecidableEq, Repr

/-- The wording of a fault. -/
def FileFault.message : FileFault → String
  | .system fault path => s!"{fault.words}: {quoted path.text}"
  | .bytes fault => fault.message

namespace Disk

/-! ## Looking around -/

/-- What stands at a place. -/
def entryAt? (d : Disk) (place : List String) : Option Entry :=
  if place.isEmpty then some .directory
  else (d.entries.find? fun entry => entry.1 == place).map Prod.snd

/-- Follows names from a place. Every name but the last must be one of a directory, and it
must be there. -/
def walk (d : Disk) (place : List String) : List String → Except SystemFault (List String × Entry)
  | [] =>
      match d.entryAt? place with
      | some entry => .ok (place, entry)
      | none => .error .missing
  | part :: rest =>
      match d.entryAt? place with
      | none => .error .missing
      | some (.file _) => .error .notDirectory
      | some .directory =>
          d.walk (if part = ".." then place.dropLast else place ++ [part]) rest

/-- Where a path starts. -/
def start (d : Disk) (p : Path) : List String := if p.absolute then [] else d.working

/-- What a path leads to. -/
def find (d : Disk) (p : Path) : Except SystemFault (List String × Entry) :=
  d.walk (d.start p) p.parts

/-- The path leads somewhere. -/
def hasPath (d : Disk) (p : Path) : Bool := (d.find p).isOk

/-- The place of the directory that a path leads to. -/
def directory? (d : Disk) (p : Path) : Option (List String) :=
  match d.find p with
  | .ok (place, .directory) => some place
  | _ => none

/-- The place that a path means, whether there is something or not. -/
def resolve (d : Disk) (p : Path) : List String := resolveParts (d.start p) p.parts

/-- The names that lead from a directory to a file below it. -/
def below? (directory : List String) (entry : List String × Entry) : Option (List String) :=
  match entry.2 with
  | .directory => none
  | .file _ =>
      if directory.isPrefixOf entry.1 then some (entry.1.drop directory.length) else none

/-- The files below a directory, by their names from there. -/
def filesBelow (d : Disk) (directory : List String) : List (List String) :=
  (d.entries.filterMap (below? directory)).mergeSort precedes

/-! ## Reading and writing -/

/-- The text of a file. -/
def readText (d : Disk) (p : Path) : Except FileFault String :=
  match d.find p with
  | .error fault => .error (.system fault p)
  | .ok (_, .directory) => .error (.system .isDirectory p)
  | .ok (_, .file bytes) =>
      match decodeUtf8 bytes with
      | .ok cs => .ok (String.ofList (lineFeeds cs))
      | .error fault => .error (.bytes fault)

/-- The disk with an entry at a place, in the place of one that is there. -/
def put (d : Disk) (place : List String) (entry : Entry) : Disk :=
  if (d.entryAt? place).isSome then
    { d with entries := d.entries.map fun old => if old.1 = place then (place, entry) else old }
  else { d with entries := d.entries ++ [(place, entry)] }

/-- Where a file with this path would be written: its directory must be there, and it must
not be a directory itself. -/
def target (d : Disk) (p : Path) : Except SystemFault (List String) :=
  match p.parts.getLast? with
  | none => .error .isDirectory
  | some name =>
      match d.walk (d.start p) p.parts.dropLast with
      | .error fault => .error fault
      | .ok (_, .file _) => .error .notDirectory
      | .ok (place, .directory) =>
          if name = ".." || d.entryAt? (place ++ [name]) == some .directory then
            .error .isDirectory
          else .ok (place ++ [name])

/-- Writes a text to a file. -/
def writeText (d : Disk) (p : Path) (text : String) : Except FileFault Disk :=
  match d.target p with
  | .error fault => .error (.system fault p)
  | .ok place => .ok (d.put place (.file text.toUTF8.toList))

end Disk

end SeamLint.Files
