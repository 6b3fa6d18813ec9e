import SeamLint.Command.Basic
import SeamLint.Output.Format
import SeamLint.Scan.ConfigFile
import SeamLint.Scan.Snapshots

set_option autoImplicit false

/-! # Running commands

A run takes a console and the files it finds, and gives back what it prints, what it logs, the
files as it leaves them and its exit code. A fault of a configuration is logged; any other fault
ends the run without an exit code.
-/

namespace SeamLint.Command

open SeamLint.Files SeamLint.Output SeamLint.Scan

/-- The exit code of a run without a finding that counts. -/
def exitOk : Nat := 0

/-- The exit code of a run that was not possible. -/
def exitError : Nat := 1

/-- The exit code of a run with a finding that counts, and of a command line that is
refused. -/
def exitFindings : Nat := 2

/-- What a run comes to. -/
structure Outcome where
  result : Except Fault Nat
  printed : String := ""
  log : List String := []
  disk : Disk

/-- A line that is logged about an error. -/
def errorEntry (message : String) : String := s!"ERROR seamscan.cli: {message}"

/-- The end of a run by a fault. -/
def Outcome.ofFault (d : Disk) (log : List String) (fault : Fault) : Outcome :=
  if fault.isReported then
    { result := .ok exitError, log := log ++ [errorEntry fault.message], disk := d }
  else { result := .error fault, log, disk := d }

/-! ## Scanning -/

/-- The exit code of a report. -/
def exitCode (report : Finding.Report) (severities : Finding.Severities)
    (threshold : Finding.Severity) : Nat :=
  if report.exceeds severities threshold then exitFindings else exitOk

/-- A text that is given and not empty. -/
def given? (text : Option String) : Option String := text.filter fun s => !s.isEmpty

/-- Writes the report where it belongs: to a file or to the screen. -/
def deliver (d : Disk) (output : Option String) (text : String) : Except Fault (String × Disk) :=
  match given? output with
  | some path => do return ("", ← d.writeText (.ofText path) text)
  | none => .ok (text, d)

/-- Scans what was loaded under a configuration: the exit code, what is printed, and the
files. -/
def reportLoaded (console : Console) (d : Disk) (request : ScanRequest) (config : Config)
    (loading : Loading) : Except Fault (Nat × String × Disk) := do
  let report ← scanLoaded loading config
  let severities ← config.severities
  let configured ← config.reportFormat
  let format := (given? request.format).getD configured
  let color := request.color && (given? request.output).isNone
  let text ← formatReport console format report severities color
  let (printed, disk) ← deliver d request.output text
  let threshold ← config.failOn
  return (exitCode report severities threshold, printed, disk)

/-- Scans snapshots. -/
def runScan (console : Console) (d : Disk) (request : ScanRequest) : Outcome :=
  match chooseConfig d request.config (request.paths.head?.getD ".") with
  | .error fault => .ofFault d [] fault
  | .ok config =>
      let loading := loadTrees d request.paths
      match reportLoaded console d request config loading with
      | .error fault => .ofFault d loading.log fault
      | .ok (code, printed, disk) => { result := .ok code, printed, log := loading.log, disk }

/-! ## Rules -/

/-- Which rules a configuration has on. -/
def activeIds (config : Config) : Except Fault (List String) := do
  let active ← Rule.descriptors.filterM fun r => config.ruleEnabled r.id r.enabledByDefault
  return active.map Rule.Descriptor.id

/-- The table of rules under the configuration of a file. -/
def rulesTable (console : Console) (d : Disk) (config : Option String) : Except Fault String := do
  let config ← chooseConfig d config "."
  let active ← activeIds config
  return rulesText console Rule.descriptors active.contains false

/-- Lists the rules. -/
def runRules (console : Console) (d : Disk) (config : Option String) : Outcome :=
  match rulesTable console d config with
  | .error fault => .ofFault d [] fault
  | .ok table => { result := .ok exitOk, printed := table, disk := d }

/-! ## Creating a configuration file -/

/-- The configuration file that is created. -/
def createdConfig : String := ".seamscan.yaml"

/-- Creates a configuration file with the default settings. -/
def runInit (d : Disk) (force : Bool) : Outcome :=
  let path := Path.ofText createdConfig
  if d.hasPath path && !force then
    let entry := errorEntry s!"{createdConfig} already exists; use --force to overwrite"
    { result := .ok exitError, log := [entry], disk := d }
  else
    match d.writeText path defaultConfigText with
    | .error fault => .ofFault d [] (.file fault)
    | .ok disk => { result := .ok exitOk, printed := s!"Created {createdConfig}\n", disk }

/-! ## All commands -/

/-- Runs a command. -/
def execute (console : Console) (d : Disk) : Command → Outcome
  | .scan request => runScan console d request
  | .rules config => runRules console d config
  | .init force => runInit d force

/-- The answer to a command line without a command. -/
def Stop.outcome (d : Disk) : Stop → Outcome
  | .help => { result := .ok exitOk, disk := d }
  | .version => { result := .ok exitOk, printed := s!"{toolName} {toolVersion}\n", disk := d }
  | .refused => { result := .ok exitFindings, disk := d }

/-- Runs a command line. -/
def run (console : Console) (d : Disk) (words : List String) : Outcome :=
  match ofWords words with
  | .ok command => execute console d command
  | .error stop => stop.outcome d

end SeamLint.Command
