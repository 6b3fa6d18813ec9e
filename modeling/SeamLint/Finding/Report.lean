import SeamLint.Finding.Basic
import SeamLint.Finding.Severity

set_option autoImplicit false

/-! # Reports

The result of a scan: its findings, how many trees were analysed, which rules were applied
and what went wrong.
-/

namespace SeamLint.Finding

/-- The result of a scan. -/
structure Report where
  findings : List Finding := []
  trees : Nat := 0
  rules : List String := []
  errors : List String := []
deriving DecidableEq, Repr, Inhabited

/-- Counts one more occurrence of a rule. -/
def countRule (ruleId : String) : List (String × Nat) → List (String × Nat)
  | [] => [(ruleId, 1)]
  | (id, n) :: rest => if id = ruleId then (id, n + 1) :: rest else (id, n) :: countRule ruleId rest

/-- How many findings each rule has, in the order of their first findings. -/
def Report.byRule (r : Report) : List (String × Nat) :=
  r.findings.foldl (fun counts f => countRule f.ruleId counts) []

/-- The severities of rules. -/
abbrev Severities := List (String × Severity)

/-- The severity of a rule, if it is given. -/
def Severities.get? (severities : Severities) (ruleId : String) : Option Severity :=
  (severities.find? fun entry => entry.1 == ruleId).map Prod.snd

/-- Some finding is at least as serious as the threshold. A rule without a given severity
counts as a warning. -/
def Report.exceeds (r : Report) (severities : Severities) (threshold : Severity) : Bool :=
  r.findings.any fun f => ((severities.get? f.ruleId).getD .warning).reaches threshold

end SeamLint.Finding
