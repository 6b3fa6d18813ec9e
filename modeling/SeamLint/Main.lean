import SeamLint.Command.Run

set_option autoImplicit false

/-! # The program

Reads the files that a command line speaks of, runs it on them, and prints, logs and writes
what comes of it.
-/

namespace SeamLint.Program

open SeamLint.Command SeamLint.Files SeamLint.Output SeamLint.Scan

/-- The pictures that have a number for a name, so that the place of a finding can spell it. -/
def pictures : List (String × String) := [("100", "💯"), ("1234", "🔢"), ("-1", "👎")]

/-- The console of the program. Names of other pictures stay as they are. -/
def console : Console := .ofLexicon (.ofPictures pictures)

/-- The lines that say how the program is called. -/
def usage : String :=
  "usage: seamscan [-h] [--version] [-v] scan [paths] [-c CONFIG] [-f FORMAT] [-o OUTPUT] [-j JOBS] [--color]\n" ++
  "       seamscan [-h] [--version] [-v] rules [-c CONFIG]\n" ++
  "       seamscan [-h] [--version] [-v] init [-f]\n"

/-- The absolute path of a place. -/
def placePath (place : List String) : String := Path.text ⟨true, place⟩

/-- Adds what stands at a place to the disk, and all that is below it if `deep`. A place
where nothing can be read is left out. -/
partial def capture (deep : Bool) (d : Disk) (place : List String) : IO Disk := do
  try
    let real ← IO.FS.realPath (placePath place)
    if ← real.isDir then
      let mut d := if place.isEmpty then d else d.put place .directory
      if deep then
        for entry in ← real.readDir do
          d ← capture deep d (place ++ [entry.fileName])
      return d
    else if ← real.pathExists then
      return d.put place (.file (← IO.FS.readBinFile (placePath place)).toList)
    else return d
  catch _ => return d

/-- Adds a path, with every place on the way to it. -/
def capturePath (deep : Bool) (d : Disk) (path : String) : IO Disk := do
  let p := Path.ofText path
  let start := if p.absolute then [] else d.working
  let mut d := d
  for n in List.range p.parts.length do
    d ← capture false d (resolveParts start (p.parts.take n))
  capture deep d (resolveParts start p.parts)

/-- Adds the configuration files above a path. -/
def captureConfigs (d : Disk) (path : String) : IO Disk := do
  let mut d := d
  for directory in upward (d.resolve (.ofText path)) do
    d ← capture false d directory
    for name in configNames do
      d ← capture false d (directory ++ [name])
  return d

/-- The files that a command line speaks of. -/
def gather (words : List String) : IO Disk := do
  let here ← IO.FS.realPath "."
  let d : Disk := { working := (Path.ofText here.toString).parts }
  let d ← captureConfigs d "."
  match ofWords words with
  | .ok (.scan request) => do
      let mut d := d
      for path in request.paths do
        d ← capturePath true d path
        d ← captureConfigs d path
      for path in request.config.toList ++ request.output.toList do
        d ← capturePath false d path
      return d
  | .ok (.rules (some path)) => capturePath false d path
  | _ => return d

/-- Writes the files that a run has changed. -/
def store (before after : Disk) : IO Unit := do
  for (place, entry) in after.entries do
    if let .file bytes := entry then
      if before.entryAt? place != some entry then
        IO.FS.writeBinFile (placePath place) ⟨bytes.toArray⟩

end SeamLint.Program

open SeamLint SeamLint.Program in
/-- Runs a command line and gives back its exit code. -/
def main (words : List String) : IO UInt32 := do
  let disk ← gather words
  let outcome := Command.run console disk words
  for line in outcome.log do
    IO.eprintln line
  match Command.ofWords words with
  | .error .help => IO.print usage
  | .error .refused => IO.eprint usage
  | _ => IO.print outcome.printed
  store disk outcome.disk
  match outcome.result with
  | .ok code => return UInt32.ofNat code
  | .error fault =>
      IO.eprintln fault.message
      return UInt32.ofNat Command.exitError
