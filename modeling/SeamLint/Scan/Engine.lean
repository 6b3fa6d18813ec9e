import SeamLint.Finding.Report
import SeamLint.Rule.Basic

set_option autoImplicit false

/-! # Applying rules to trees

Every node of a tree is shown to every rule that wants its kind, node by node and for each
node in the order of the rules. A rule that fails is left out for the rest of the tree; the
failure is an error of the report, and the other rules go on. Findings are listed in their
own order, so that neither the order of the trees nor that of the rules shows in them. A
finding that cannot be shown has no place in that order, and there is no report then; nor is
there one if a rule never comes to an end.
-/

namespace SeamLint.Scan

open SeamLint.Code SeamLint.Finding SeamLint.Rule SeamLint.Settings SeamLint.Surroundings

/-- The rules to apply, where their options come from, and the tables of names. -/
structure Engine where
  rules : List Rule
  provider : Provider := fun _ _ => .unset
  tables : Tables := {}

/-- A rule that failed on a tree. -/
structure Failure where
  ruleId : String
  path : String
  fault : Rule.Fault
deriving DecidableEq, Repr

/-- The wording of a failure. -/
def Failure.message (f : Failure) : String :=
  s!"Error running rule {f.ruleId} on {f.path}: {f.fault.reported}"

/-- What the rules have come to so far: their findings and their failures, in the order in
which they came up, and whether a rule is at a node where it never comes to an end. -/
structure Progress where
  findings : List Finding := []
  failures : List Failure := []
  isStuck : Bool := false
deriving DecidableEq, Repr, Inhabited

/-- A rule with that id has failed. -/
def Progress.hasFailed (p : Progress) (ruleId : String) : Bool :=
  p.failures.any fun f => f.ruleId == ruleId

/-! ## One tree -/

/-- What a rule may consult in a tree. Its settings are those for the path of the tree. -/
def Engine.context (e : Engine) (t : Tree) (r : Rule) : Context where
  tree := t
  tables := e.tables
  settings := (resolve e.provider ⟨r.id, t.path, r.thresholds⟩).settings.mapError
    fun fault => .raised (.integer fault)

/-- A rule together with what it may consult. -/
structure Reader where
  rule : Rule
  context : Context

/-- The rules, ready for a tree. -/
def Engine.readers (e : Engine) (t : Tree) : List Reader :=
  e.rules.map fun r => ⟨r, e.context t r⟩

/-- Which nodes are shown to which rules, in order. -/
def visits (readers : List Reader) (nodes : List Node) : List (Reader × Node) :=
  nodes.flatMap fun n => (readers.filter fun r => r.rule.kinds.contains n.kind).map (·, n)

/-- Shows a node to a rule, unless the rule has failed before. Where a rule never comes to an
end, nothing comes after it. -/
def Progress.visit (p : Progress) (visit : Reader × Node) : Progress :=
  let reader := visit.1
  if p.isStuck || p.hasFailed reader.rule.id then p
  else
    match reader.rule.evaluate reader.context visit.2 with
    | .error .endless => { p with isStuck := true }
    | .error (.raised fault) =>
        { p with failures := p.failures ++ [⟨reader.rule.id, reader.context.tree.path, fault⟩] }
    | .ok none => p
    | .ok (some finding) => { p with findings := p.findings ++ [finding] }

/-- What was found, in order. -/
def Progress.sorted (p : Progress) : Progress := { p with findings := sortFindings p.findings }

/-- What was found, in order, if every rule has come to an end and every finding can be
listed. -/
def Progress.listed (p : Progress) : Except (Code.Stop Number.Unwritable) Progress :=
  if p.isStuck then .error .endless
  else if p.findings.all Finding.isShowable then .ok p.sorted
  else .error (.raised {})

/-- Shows the nodes of a tree to the rules. -/
def Engine.run (e : Engine) (t : Tree) : Progress :=
  (visits (e.readers t) t.nodes.toList).foldl Progress.visit {}

/-- What the rules have come to in a tree. -/
def Engine.analyze (e : Engine) (t : Tree) : Progress := (e.run t).sorted

/-- Applies the rules to a tree. -/
def Engine.analysis (e : Engine) (t : Tree) : Except (Code.Stop Number.Unwritable) Progress :=
  (e.run t).listed

/-! ## Several trees -/

/-- The ids of the rules, in order. -/
def Engine.ruleIds (e : Engine) : List String := (e.rules.map Rule.id).mergeSort

/-- The report on what the rules have come to, tree by tree. -/
def Engine.collect (e : Engine) (results : List Progress) : Report where
  findings := sortFindings (results.flatMap Progress.findings)
  trees := results.length
  rules := e.ruleIds
  errors := results.flatMap fun p => p.failures.map Failure.message

/-- What the rules have come to in trees, as a report. -/
def Engine.scan (e : Engine) (trees : List Tree) : Report := e.collect (trees.map e.analyze)

/-- Applies the rules to trees and reports what came out. -/
def Engine.report (e : Engine) (trees : List Tree) :
    Except (Code.Stop Number.Unwritable) Report := do
  return e.collect (← trees.mapM e.analysis)

end SeamLint.Scan
