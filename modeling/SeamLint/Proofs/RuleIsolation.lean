import SeamLint.Proofs.DecisionStack
import SeamLint.Proofs.FindingNumbers
import SeamLint.Proofs.FindingOrder
import SeamLint.Proofs.TreeWalks
import SeamLint.Scan.Engine

set_option autoImplicit false

/-! # Rules do not disturb each other

A tree is walked node by node with all rules at once, and one list of failures decides for
every rule whether it is still shown nodes. As long as every rule comes to an end wherever it
is shown a node (`Engine.Ends`), what comes of one rule is nevertheless a matter of that rule
alone: its findings are those it makes on the nodes of its kinds before the first on which it
fails (`Reader.findings`), and it is reported at most once (`Reader.failure?`). Only a finding
that cannot be listed takes those of other rules with it (`long_method_hides_findings`).

The proof projects a run to one rule id (`Progress.only`). A visit of that rule is a visit
of the projection, any other visit leaves the projection as it is, so the projection of the
whole run is the run of that rule alone (`only_foldl_visit`).
-/

namespace SeamLint.Scan

open SeamLint.Code SeamLint.Finding SeamLint.Rule

/-! ## One rule on its own -/

namespace Reader

/-- The nodes that are of interest to a rule, in order. -/
def shown (r : Reader) (nodes : List Node) : List Node :=
  nodes.filter fun n => r.rule.kinds.contains n.kind

/-- What a rule finds at a node. -/
def finding? (r : Reader) (n : Node) : Option Finding :=
  match r.rule.evaluate r.context n with
  | .ok finding => finding
  | .error _ => none

/-- The failure of a rule at a node. -/
def failureAt? (r : Reader) (n : Node) : Option Failure :=
  match r.rule.evaluate r.context n with
  | .error (.raised fault) => some ⟨r.rule.id, r.context.tree.path, fault⟩
  | _ => none

/-- The rule never comes to an end at a node. -/
def isEndless (r : Reader) (n : Node) : Bool :=
  match r.rule.evaluate r.context n with
  | .error .endless => true
  | _ => false

/-- What a rule finds in nodes that it is shown until it fails. -/
def findingsIn (r : Reader) (nodes : List Node) : List Finding :=
  (nodes.takeWhile fun n => (r.failureAt? n).isNone).filterMap r.finding?

/-- What a rule finds in a tree with these nodes: what it makes of the nodes of its kinds,
in order, up to the first on which it fails. -/
def findings (r : Reader) (nodes : List Node) : List Finding := r.findingsIn (r.shown nodes)

/-- The first failure of a rule in a tree with these nodes. -/
def failure? (r : Reader) (nodes : List Node) : Option Failure :=
  (r.shown nodes).findSome? r.failureAt?

theorem ruleId_of_finding? {r : Reader} {n : Node} {f : Finding} (hr : SignsFindings r.rule)
    (h : r.finding? n = some f) : f.ruleId = r.rule.id := by
  unfold finding? at h
  split at h
  · next finding heq => exact hr _ _ _ (by rw [heq, h])
  · cases h

theorem ruleId_of_failureAt? {r : Reader} {n : Node} {f : Failure}
    (h : r.failureAt? n = some f) : f.ruleId = r.rule.id := by
  unfold failureAt? at h
  split at h
  · cases h
    rfl
  · cases h

theorem finding?_of_evaluate {r : Reader} {n : Node} {found : Option Finding}
    (h : r.rule.evaluate r.context n = .ok found) : r.finding? n = found := by
  unfold finding?
  rw [h]

theorem findingsIn_singleton {r : Reader} {n : Node} {found : Option Finding}
    (h : r.rule.evaluate r.context n = .ok found) : r.findingsIn [n] = found.toList := by
  have hnone : r.failureAt? n = none := by
    unfold failureAt?
    rw [h]
  simp only [findingsIn, List.takeWhile_cons, hnone, Option.isNone_none, if_true,
    List.takeWhile_nil, List.filterMap_cons, finding?_of_evaluate h]
  cases found <;> rfl

/-- Where a rule fails it finds nothing. -/
theorem finding?_eq_none_of_failureAt? {r : Reader} {n : Node} {f : Failure}
    (h : r.failureAt? n = some f) : r.finding? n = none := by
  unfold failureAt? at h
  unfold finding?
  cases hn : r.rule.evaluate r.context n with
  | ok finding => simp [hn] at h
  | error stop => rfl

theorem isEndless_iff {r : Reader} {n : Node} :
    r.isEndless n = true ↔ r.rule.evaluate r.context n = .error .endless := by
  unfold isEndless
  split
  · next heq => simp [heq]
  · next hne => simpa using hne

/-- A rule fails in a tree if and only if it fails on one of the nodes that it is shown. -/
theorem isSome_failure?_iff (r : Reader) (nodes : List Node) :
    (r.failure? nodes).isSome ↔
      ∃ n ∈ nodes, r.rule.kinds.contains n.kind = true ∧
        ∃ fault, r.rule.evaluate r.context n = .error (.raised fault) := by
  have hfault (n : Node) : (r.failureAt? n).isSome = true ↔
      ∃ fault, r.rule.evaluate r.context n = .error (.raised fault) := by
    unfold failureAt?
    rcases r.rule.evaluate r.context n with (fault | _) | finding <;> simp
  simp only [failure?, shown, List.isSome_findSome?, List.any_eq_true, List.mem_filter, hfault,
    and_assoc]

end Reader

/-! ## Single visits -/

/-- A visit in terms of what the rule finds and how it fails there. -/
theorem visit_eq (p : Progress) (r : Reader) (n : Node) :
    p.visit (r, n) =
      if p.isStuck || p.hasFailed r.rule.id then p
      else ⟨p.findings ++ (r.finding? n).toList, p.failures ++ (r.failureAt? n).toList,
        r.isEndless n⟩ := by
  simp only [Progress.visit, Reader.finding?, Reader.failureAt?, Reader.isEndless]
  by_cases hp : (p.isStuck || p.hasFailed r.rule.id) = true
  · rw [if_pos hp, if_pos hp]
  · rw [if_neg hp, if_neg hp]
    obtain ⟨hstuck, -⟩ := Bool.or_eq_false_iff.mp (Bool.eq_false_of_not_eq_true hp)
    rcases r.rule.evaluate r.context n with (fault | _) | _ | finding <;> simp [← hstuck]

/-- The part of a run that belongs to a rule id. -/
def Progress.only (p : Progress) (id : String) : Progress :=
  ⟨p.findings.filter (·.ruleId == id), p.failures.filter (·.ruleId == id), p.isStuck⟩

/-- Every rule comes to an end on its visits. -/
def Ends (vs : List (Reader × Node)) : Prop := ∀ v ∈ vs, v.1.isEndless v.2 = false

theorem hasFailed_only (p : Progress) (id : String) :
    (p.only id).hasFailed id = p.hasFailed id := by
  simp only [Progress.hasFailed, Progress.only, List.any_filter, Bool.and_self]

/-- A visit of a rule is a visit of the part that belongs to it. -/
theorem only_visit_self (p : Progress) (r : Reader) (n : Node) (hr : SignsFindings r.rule) :
    (p.visit (r, n)).only r.rule.id = (p.only r.rule.id).visit (r, n) := by
  have hfinding : (r.finding? n).toList.filter (·.ruleId == r.rule.id) = (r.finding? n).toList := by
    refine List.filter_eq_self.mpr fun f hf => ?_
    simpa using Reader.ruleId_of_finding? hr (Option.mem_toList.mp hf)
  have hfailure : (r.failureAt? n).toList.filter (·.ruleId == r.rule.id)
      = (r.failureAt? n).toList := by
    refine List.filter_eq_self.mpr fun f hf => ?_
    simpa using Reader.ruleId_of_failureAt? (Option.mem_toList.mp hf)
  rw [visit_eq, visit_eq, hasFailed_only]
  show Progress.only (if _ then _ else _) _ = if p.isStuck || _ then _ else _
  split
  · rfl
  · simp only [Progress.only, List.filter_append, hfinding, hfailure]

/-- A visit of another rule leaves the part as it is, if it comes to an end. -/
theorem only_visit_other (p : Progress) (r : Reader) (n : Node) (hr : SignsFindings r.rule)
    (hends : r.isEndless n = false) {id : String} (hid : r.rule.id ≠ id) :
    (p.visit (r, n)).only id = p.only id := by
  have hfinding : (r.finding? n).toList.filter (·.ruleId == id) = [] := by
    refine List.filter_eq_nil_iff.mpr fun f hf => ?_
    rw [Reader.ruleId_of_finding? hr (Option.mem_toList.mp hf)]
    simpa using hid
  have hfailure : (r.failureAt? n).toList.filter (·.ruleId == id) = [] := by
    refine List.filter_eq_nil_iff.mpr fun f hf => ?_
    rw [Reader.ruleId_of_failureAt? (Option.mem_toList.mp hf)]
    simpa using hid
  rw [visit_eq]
  split
  · rfl
  · next hgoes =>
      obtain ⟨hstuck, -⟩ := Bool.or_eq_false_iff.mp (Bool.eq_false_of_not_eq_true hgoes)
      simp only [Progress.only, List.filter_append, hfinding, hfailure, List.append_nil, hends,
        hstuck]

/-! ## Whole runs -/

/-- A run gets stuck only where a rule never comes to an end. -/
theorem isStuck_foldl_visit {vs : List (Reader × Node)} (hends : Ends vs) (p : Progress) :
    (vs.foldl Progress.visit p).isStuck = p.isStuck := by
  induction vs generalizing p with
  | nil => rfl
  | cons v vs ih =>
      obtain ⟨hv, hvs⟩ := List.forall_mem_cons.mp hends
      obtain ⟨r, n⟩ := v
      rw [List.foldl_cons, ih hvs, visit_eq]
      split
      · rfl
      · next hgoes =>
          obtain ⟨hstuck, -⟩ := Bool.or_eq_false_iff.mp (Bool.eq_false_of_not_eq_true hgoes)
          exact hv.trans hstuck.symm

/-- Visits on which every rule gives a judgement leave what was found there, and no failures. -/
theorem foldl_visit_of_gives {vs : List (Reader × Node)}
    (h : ∀ v ∈ vs, Gives (fun _ => True) (v.1.rule.evaluate v.1.context v.2))
    (findings : List Finding) :
    vs.foldl Progress.visit { findings } =
      { findings := findings ++ vs.filterMap fun v => v.1.finding? v.2 } := by
  induction vs generalizing findings with
  | nil => simp
  | cons v vs ih =>
      obtain ⟨⟨found, hfound, -⟩, hvs⟩ := List.forall_mem_cons.mp h
      have hvisit : Progress.visit { findings } v = { findings := findings ++ found.toList } := by
        simp only [Progress.visit, Progress.hasFailed, hfound]
        cases found <;> simp
      rw [List.foldl_cons, hvisit, ih hvs, List.filterMap_cons, Reader.finding?_of_evaluate hfound]
      cases found <;> simp

/-- **A run, seen by one rule**: the part that belongs to a rule id is the run of the visits
of that id alone. -/
theorem only_foldl_visit (id : String) (vs : List (Reader × Node))
    (hvs : ∀ v ∈ vs, SignsFindings v.1.rule) (hends : Ends vs) (p : Progress) :
    (vs.foldl Progress.visit p).only id =
      (vs.filter fun v => v.1.rule.id == id).foldl Progress.visit (p.only id) := by
  induction vs generalizing p with
  | nil => rfl
  | cons v vs ih =>
      obtain ⟨r, n⟩ := v
      have hr : SignsFindings r.rule := hvs _ List.mem_cons_self
      obtain ⟨hn, hends⟩ := List.forall_mem_cons.mp hends
      rw [List.foldl_cons, ih (fun v hv => hvs v (List.mem_cons_of_mem _ hv)) hends]
      by_cases hid : r.rule.id = id
      · subst hid
        rw [List.filter_cons_of_pos (by simp), List.foldl_cons, only_visit_self p r n hr]
      · rw [List.filter_cons_of_neg (by simpa using hid), only_visit_other p r n hr hn hid]

/-- A rule that has failed gets no further. -/
theorem foldl_visit_of_hasFailed (r : Reader) (nodes : List Node) (p : Progress)
    (h : p.hasFailed r.rule.id = true) :
    (nodes.map (r, ·)).foldl Progress.visit p = p := by
  induction nodes with
  | nil => rfl
  | cons n nodes ih =>
      rw [List.map_cons, List.foldl_cons, visit_eq, if_pos (by simp [h]), ih]

/-- **A rule on its own** finds what it finds until it fails, and fails at most once. -/
theorem foldl_visit_alone (r : Reader) {nodes : List Node}
    (hends : ∀ n ∈ nodes, r.isEndless n = false) {p : Progress}
    (h : p.hasFailed r.rule.id = false) (hstuck : p.isStuck = false) :
    (nodes.map (r, ·)).foldl Progress.visit p =
      ⟨p.findings ++ r.findingsIn nodes, p.failures ++ (nodes.findSome? r.failureAt?).toList,
        false⟩ := by
  induction nodes generalizing p with
  | nil => simp [Reader.findingsIn, ← hstuck]
  | cons n nodes ih =>
      obtain ⟨hn, hends⟩ := List.forall_mem_cons.mp hends
      rw [List.map_cons, List.foldl_cons, visit_eq, if_neg (by simp [h, hstuck]), hn]
      cases hfails : r.failureAt? n with
      | some failure =>
          have hid : failure.ruleId = r.rule.id := Reader.ruleId_of_failureAt? hfails
          have hnone : r.finding? n = none := Reader.finding?_eq_none_of_failureAt? hfails
          rw [foldl_visit_of_hasFailed]
          · simp [Reader.findingsIn, hfails, hnone]
          · simp [Progress.hasFailed, hid]
      | none =>
          rw [ih hends]
          · simp [Reader.findingsIn, hfails, List.filterMap_cons]
            cases r.finding? n <;> rfl
          · simpa [Progress.hasFailed] using h
          · rfl

/-! ## What can be listed -/

/-- All that listing a run can come to. -/
theorem listed_cases (p : Progress) :
    p.isStuck = true ∧ p.listed = .error .endless ∨
    p.isStuck = false ∧ (∃ f ∈ p.findings, f.isShowable = false) ∧
      p.listed = .error (.raised {}) ∨
    p.isStuck = false ∧ (∀ f ∈ p.findings, f.isShowable = true) ∧ p.listed = .ok p.sorted := by
  unfold Progress.listed
  cases p.isStuck with
  | true => exact Or.inl ⟨rfl, rfl⟩
  | false =>
      cases hall : p.findings.all Finding.isShowable with
      | true => exact Or.inr (Or.inr ⟨rfl, List.all_eq_true.mp hall, rfl⟩)
      | false =>
          obtain ⟨f, hf, hshowable⟩ := List.all_eq_false.mp hall
          exact Or.inr (Or.inl ⟨rfl, ⟨f, hf, Bool.eq_false_of_not_eq_true hshowable⟩, rfl⟩)

/-- A run is listed if it is not stuck and all its findings can be shown. -/
theorem listed_eq_ok_iff {p q : Progress} :
    p.listed = .ok q ↔
      p.isStuck = false ∧ (∀ f ∈ p.findings, f.isShowable = true) ∧ q = p.sorted := by
  rcases listed_cases p with ⟨hstuck, hlisted⟩ | ⟨-, ⟨f, hf, hshowable⟩, hlisted⟩ |
    ⟨hstuck, hshowable, hlisted⟩
  · simp [hlisted, hstuck]
  · rw [hlisted]
    refine iff_of_false (by simp) fun h => ?_
    exact absurd (h.2.1 f hf) (by simp [hshowable])
  · rw [hlisted]
    refine ⟨fun h => ⟨hstuck, hshowable, (Except.ok.inj h).symm⟩, fun h => ?_⟩
    rw [h.2.2]

/-- A run is refused if it is not stuck and one of its findings cannot be shown. -/
theorem listed_eq_raised_iff {p : Progress} :
    p.listed = .error (.raised {}) ↔
      p.isStuck = false ∧ ∃ f ∈ p.findings, f.isShowable = false := by
  rcases listed_cases p with ⟨hstuck, hlisted⟩ | ⟨hstuck, hfinding, hlisted⟩ |
    ⟨-, hshowable, hlisted⟩
  · simp [hlisted, hstuck]
  · exact iff_of_true hlisted ⟨hstuck, hfinding⟩
  · rw [hlisted]
    refine iff_of_false (by simp) ?_
    rintro ⟨-, f, hf, hnot⟩
    exact absurd (hshowable f hf) (by simp [hnot])

/-! ## The visits of one rule -/

/-- Among readers with distinct ids, each is the only one with its id. -/
theorem filter_id_eq_singleton {readers : List Reader} {r : Reader}
    (hids : (readers.map (·.rule.id)).Nodup) (hr : r ∈ readers) :
    readers.filter (·.rule.id == r.rule.id) = [r] := by
  induction readers with
  | nil => cases hr
  | cons s readers ih =>
      rw [List.map_cons, List.nodup_cons] at hids
      rcases List.mem_cons.mp hr with rfl | hr
      · rw [List.filter_cons_of_pos (by simp)]
        refine congrArg (r :: ·) (List.filter_eq_nil_iff.mpr fun s hs heq => hids.1 ?_)
        exact (eq_of_beq heq) ▸ List.mem_map_of_mem hs
      · have hne : s.rule.id ≠ r.rule.id := fun heq => hids.1 (heq ▸ List.mem_map_of_mem hr)
        rw [List.filter_cons_of_neg (by simpa using hne), ih hids.2 hr]

/-- The visits of one rule lead it through the nodes of its kinds, in order. -/
theorem filter_id_visits {readers : List Reader} {r : Reader}
    (hids : (readers.map (·.rule.id)).Nodup) (hr : r ∈ readers) (nodes : List Node) :
    (visits readers nodes).filter (·.1.rule.id == r.rule.id) = (r.shown nodes).map (r, ·) := by
  induction nodes with
  | nil => rfl
  | cons n nodes ih =>
      have hone : (((readers.filter fun s => s.rule.kinds.contains n.kind).map (·, n)).filter
          (·.1.rule.id == r.rule.id)) = if r.rule.kinds.contains n.kind then [(r, n)] else [] := by
        rw [List.filter_map, List.filter_filter]
        simp only [Function.comp_def]
        rw [← List.filter_filter, List.filter_comm, filter_id_eq_singleton hids hr]
        rw [List.filter_singleton]
        cases r.rule.kinds.contains n.kind <;> rfl
      have hsplit : visits readers (n :: nodes) =
          ((readers.filter fun s => s.rule.kinds.contains n.kind).map (·, n)) ++
            visits readers nodes := rfl
      rw [hsplit, List.filter_append, hone, ih, Reader.shown, Reader.shown]
      rw [List.filter_cons]
      split <;> rfl

/-- An id that no rule has is visited nowhere. -/
theorem filter_id_visits_eq_nil {readers : List Reader} {id : String}
    (hid : id ∉ readers.map (·.rule.id)) (nodes : List Node) :
    (visits readers nodes).filter (·.1.rule.id == id) = [] := by
  refine List.filter_eq_nil_iff.mpr fun v hv heq => hid ?_
  obtain ⟨n, -, hv⟩ := List.mem_flatMap.mp hv
  obtain ⟨s, hs, rfl⟩ := List.mem_map.mp hv
  exact (eq_of_beq heq) ▸ List.mem_map_of_mem (List.mem_of_mem_filter hs)

/-! ## A tree under several rules -/

/-- A rule of an engine, ready for a tree. -/
def Engine.reader (e : Engine) (t : Tree) (r : Rule) : Reader := ⟨r, e.context t r⟩

theorem map_id_readers (e : Engine) (t : Tree) :
    (e.readers t).map (·.rule.id) = e.rules.map Rule.id := by
  simp [Engine.readers, Function.comp_def]

/-- Whoever is shown a node is a rule of the engine, ready for the tree. -/
theorem exists_rule_of_mem_visits {e : Engine} {t : Tree} {nodes : List Node}
    {v : Reader × Node} (hv : v ∈ visits (e.readers t) nodes) :
    ∃ r ∈ e.rules, v.1 = e.reader t r := by
  obtain ⟨n, -, hv⟩ := List.mem_flatMap.mp hv
  obtain ⟨s, hs, rfl⟩ := List.mem_map.mp hv
  obtain ⟨r, hr, rfl⟩ := List.mem_map.mp (List.mem_of_mem_filter hs)
  exact ⟨r, hr, rfl⟩

theorem signs_of_mem_visits {e : Engine} (hsigns : ∀ r ∈ e.rules, SignsFindings r) (t : Tree) :
    ∀ v ∈ visits (e.readers t) t.nodes.toList, SignsFindings v.1.rule := by
  intro v hv
  obtain ⟨r, hr, hv⟩ := exists_rule_of_mem_visits hv
  rw [hv]
  exact hsigns r hr

/-- Every rule comes to an end at every node of the tree that it is shown. -/
def Engine.Ends (e : Engine) (t : Tree) : Prop :=
  ∀ r ∈ e.rules, ∀ n ∈ t.nodes, r.kinds.contains n.kind = true →
    r.evaluate (e.context t r) n ≠ .error .endless

theorem mem_of_mem_visits {readers : List Reader} {nodes : List Node} {v : Reader × Node}
    (hv : v ∈ visits readers nodes) : v.2 ∈ nodes ∧ v.1.rule.kinds.contains v.2.kind = true := by
  obtain ⟨n, hn, hv⟩ := List.mem_flatMap.mp hv
  obtain ⟨reader, hreader, rfl⟩ := List.mem_map.mp hv
  exact ⟨hn, (List.mem_filter.mp hreader).2⟩

theorem ends_visits {e : Engine} {t : Tree} (h : e.Ends t) :
    Ends (visits (e.readers t) t.nodes.toList) := by
  intro v hv
  obtain ⟨r, hr, hreader⟩ := exists_rule_of_mem_visits hv
  obtain ⟨hn, hkind⟩ := mem_of_mem_visits hv
  rw [hreader] at hkind ⊢
  refine Bool.eq_false_iff.mpr fun hendless => ?_
  exact h r hr v.2 (Array.mem_toList_iff.mp hn) hkind (Reader.isEndless_iff.mp hendless)

/-- Rules of the catalogue come to an end where complexities can be counted. -/
theorem ends_of_complexity {e : Engine} {t : Tree} (hrules : ∀ r ∈ e.rules, r ∈ catalog)
    (h : ∀ n ∈ t.nodes, Measure.complexityAt t n ≠ .error .endless) : e.Ends t := by
  intro r hr n hn _ hendless
  have hsettings : (e.context t r).settings ≠ .error .endless := by
    simp only [Engine.context]
    cases (Settings.resolve e.provider ⟨r.id, t.path, r.thresholds⟩).settings <;>
      simp [Except.mapError]
  rcases catalog_endsUnless (hrules r hr) (e.context t r) n hendless with hs | hn'
  · exact hsettings hs
  · exact h n hn hn'

theorem isStuck_run {e : Engine} {t : Tree} (h : e.Ends t) : (e.run t).isStuck = false :=
  isStuck_foldl_visit (ends_visits h) {}

/-- Findings that agree rule by rule sort to the same list: findings of two rules never
tie. -/
theorem sortFindings_eq_of_only {p q : Progress} (h : ∀ id, p.only id = q.only id) :
    sortFindings p.findings = sortFindings q.findings := by
  have hclass (a : Finding) (l : List Finding) :
      l.filter (ties a) = (l.filter (·.ruleId == a.ruleId)).filter (ties a) := by
    rw [List.filter_filter]
    refine List.filter_congr fun b _ => ?_
    by_cases hab : ties a b = true
    · simp [hab, ruleId_eq_of_ties hab]
    · simp [hab]
  refine sortFindings_eq_of_ties fun a => ?_
  have hfindings : p.findings.filter (·.ruleId == a.ruleId)
      = q.findings.filter (·.ruleId == a.ruleId) := congrArg Progress.findings (h a.ruleId)
  rw [hclass a p.findings, hclass a q.findings, hfindings]

/-- Failures that agree rule by rule are the same up to their order. -/
theorem failures_perm_of_only {p q : Progress} (h : ∀ id, p.only id = q.only id) :
    p.failures.Perm q.failures := by
  rw [List.perm_iff_count]
  intro f
  have hcount (l : List Failure) : l.count f = (l.filter (·.ruleId == f.ruleId)).count f :=
    (List.count_filter (by simp)).symm
  have hfailures : p.failures.filter (·.ruleId == f.ruleId)
      = q.failures.filter (·.ruleId == f.ruleId) := congrArg Progress.failures (h f.ruleId)
  rw [hcount p.failures, hcount q.failures, hfailures]

section Isolation

variable {e : Engine} {t : Tree} (hids : (e.rules.map Rule.id).Nodup)
  (hsigns : ∀ r ∈ e.rules, SignsFindings r) (hends : e.Ends t)

include hsigns hends

include hids in
/-- **The part of a run that belongs to a rule is what the rule comes to on its own.** -/
theorem only_run_of_mem {r : Rule} (hr : r ∈ e.rules) :
    (e.run t).only r.id =
      ⟨(e.reader t r).findings t.nodes.toList,
        ((e.reader t r).failure? t.nodes.toList).toList, false⟩ := by
  have hmem : e.reader t r ∈ e.readers t := List.mem_map_of_mem hr
  have hnodup : ((e.readers t).map (·.rule.id)).Nodup := by rwa [map_id_readers]
  have hvisits := filter_id_visits hnodup hmem t.nodes.toList
  have hshown : ∀ n ∈ (e.reader t r).shown t.nodes.toList, (e.reader t r).isEndless n = false := by
    intro n hn
    have hv : (e.reader t r, n) ∈ ((e.reader t r).shown t.nodes.toList).map (e.reader t r, ·) :=
      List.mem_map_of_mem hn
    rw [← hvisits] at hv
    exact ends_visits hends _ (List.mem_of_mem_filter hv)
  have halone := foldl_visit_alone (e.reader t r) hshown (p := {}) rfl rfl
  rw [← hvisits] at halone
  exact (only_foldl_visit r.id _ (signs_of_mem_visits hsigns t) (ends_visits hends) {}).trans halone

/-- Nothing in a run belongs to an id that no rule has. -/
theorem only_run_of_not_mem {id : String} (hid : id ∉ e.rules.map Rule.id) :
    (e.run t).only id = ⟨[], [], false⟩ := by
  have hnone : (visits (e.readers t) t.nodes.toList).filter (·.1.rule.id == id) = [] :=
    filter_id_visits_eq_nil (by rwa [map_id_readers]) _
  have hrun := only_foldl_visit id _ (signs_of_mem_visits hsigns t) (ends_visits hends) {}
  rw [hnone] at hrun
  exact hrun

include hids in
/-- Every part of a run stays the same when the rules are listed in another order. -/
theorem only_run_perm {rules : List Rule} (hperm : e.rules.Perm rules) (id : String) :
    (Engine.run { e with rules } t).only id = (e.run t).only id := by
  have hsigns' : ∀ r ∈ rules, SignsFindings r := fun r hr => hsigns r (hperm.mem_iff.mpr hr)
  have hids' : (rules.map Rule.id).Nodup := (hperm.map Rule.id).nodup_iff.mp hids
  have hends' : Engine.Ends { e with rules } t := fun r hr => hends r (hperm.mem_iff.mpr hr)
  by_cases hid : id ∈ e.rules.map Rule.id
  · obtain ⟨r, hr, rfl⟩ := List.mem_map.mp hid
    rw [only_run_of_mem hids hsigns hends hr]
    exact only_run_of_mem (e := { e with rules }) hids' hsigns' hends' (hperm.mem_iff.mp hr)
  · have hid' : id ∉ rules.map Rule.id := fun h => hid ((hperm.map Rule.id).mem_iff.mpr h)
    rw [only_run_of_not_mem hsigns hends hid]
    exact only_run_of_not_mem (e := { e with rules }) hsigns' hends' hid'

/-- Every finding and every failure belongs to one of the rules. -/
theorem ruleId_mem_of_run {id : String}
    (h : id ∈ (e.run t).findings.map Finding.ruleId ++ (e.run t).failures.map Failure.ruleId) :
    id ∈ e.rules.map Rule.id := by
  by_contra hid
  have hnone := only_run_of_not_mem hsigns hends hid
  rcases List.mem_append.mp h with h | h
  · obtain ⟨f, hf, rfl⟩ := List.mem_map.mp h
    have hnil : (e.run t).findings.filter (·.ruleId == f.ruleId) = [] :=
      congrArg Progress.findings hnone
    exact absurd (List.filter_eq_nil_iff.mp hnil f hf) (by simp)
  · obtain ⟨f, hf, rfl⟩ := List.mem_map.mp h
    have hnil : (e.run t).failures.filter (·.ruleId == f.ruleId) = [] :=
      congrArg Progress.failures hnone
    exact absurd (List.filter_eq_nil_iff.mp hnil f hf) (by simp)

include hids in
/-- What is found in a tree are the findings of the rules. -/
theorem mem_findings_run_iff {f : Finding} :
    f ∈ (e.run t).findings ↔ ∃ r ∈ e.rules, f ∈ (e.reader t r).findings t.nodes.toList := by
  have hpart {r : Rule} (hr : r ∈ e.rules) : (e.run t).findings.filter (·.ruleId == r.id) =
      (e.reader t r).findings t.nodes.toList :=
    congrArg Progress.findings (only_run_of_mem hids hsigns hends hr)
  constructor
  · intro hf
    have hid : f.ruleId ∈ e.rules.map Rule.id :=
      ruleId_mem_of_run hsigns hends (List.mem_append_left _ (List.mem_map_of_mem hf))
    obtain ⟨r, hr, hid⟩ := List.mem_map.mp hid
    refine ⟨r, hr, ?_⟩
    rw [← hpart hr]
    exact List.mem_filter.mpr ⟨hf, by simp [hid]⟩
  · rintro ⟨r, hr, hf⟩
    rw [← hpart hr] at hf
    exact List.mem_of_mem_filter hf

include hids in
/-- An analysis is refused if a rule makes a finding that cannot be shown. -/
theorem analysis_eq_raised_iff :
    e.analysis t = .error (.raised {}) ↔
      ∃ r ∈ e.rules, ∃ f ∈ (e.reader t r).findings t.nodes.toList, f.isShowable = false := by
  rw [Engine.analysis, listed_eq_raised_iff, isStuck_run hends]
  simp only [mem_findings_run_iff hids hsigns hends, true_and]
  constructor
  · rintro ⟨f, ⟨r, hr, hf⟩, hshowable⟩
    exact ⟨r, hr, f, hf, hshowable⟩
  · rintro ⟨r, hr, f, hf, hshowable⟩
    exact ⟨f, ⟨r, hr, hf⟩, hshowable⟩

include hids in
/-- An analysis with the rules in another order. -/
theorem analysis_perm {rules : List Rule} (hperm : e.rules.Perm rules) {p : Progress}
    (hp : e.analysis t = .ok p) :
    ∃ p', Engine.analysis { e with rules } t = .ok p' ∧ p'.findings = p.findings ∧
      p'.failures.Perm p.failures := by
  have hsame := only_run_perm hids hsigns hends hperm
  have hfindings := sortFindings_eq_of_only hsame
  have hfailures := failures_perm_of_only hsame
  obtain ⟨-, hshowable, rfl⟩ := listed_eq_ok_iff.mp hp
  have hends' : Engine.Ends { e with rules } t := fun r hr => hends r (hperm.mem_iff.mpr hr)
  refine ⟨_, listed_eq_ok_iff.mpr ⟨isStuck_run hends', fun f hf => hshowable f ?_, rfl⟩, hfindings,
    hfailures⟩
  -- sorting loses nothing, so the same findings are there before it
  rwa [← (sortFindings_perm _).mem_iff, hfindings, (sortFindings_perm _).mem_iff] at hf

end Isolation

/-! ## The isolation of rules -/

/-- **Rules do not disturb each other, unless a finding cannot be listed.** In any tree in which
every rule comes to an end, for rules with distinct ids that sign their findings: the analysis is
refused if and only if one of the findings that a rule makes on its own cannot be shown. Otherwise a
rule has the findings that it makes on the nodes of its kinds, in order, before the first on which
it fails; it has one failure if it fails on a node of its kinds and none otherwise; nothing belongs
to anything but the rules; the findings are sorted; and the order of the rules shows in nothing but
the order of the failures. -/
theorem analyze_isolates_rules (e : Engine) (t : Tree) (hids : (e.rules.map Rule.id).Nodup)
    (hsigns : ∀ r ∈ e.rules, SignsFindings r)
    (hends : ∀ r ∈ e.rules, ∀ n ∈ t.nodes, r.kinds.contains n.kind = true →
      r.evaluate (e.context t r) n ≠ .error .endless) :
    (e.analysis t = .error (.raised {}) ↔
      ∃ r ∈ e.rules, ∃ f ∈ (e.reader t r).findings t.nodes.toList, f.isShowable = false) ∧
    (e.analysis t ≠ .error (.raised {}) → ∃ p, e.analysis t = .ok p ∧
      (∀ r ∈ e.rules,
        p.findings.filter (·.ruleId == r.id) =
          sortFindings ((e.reader t r).findings t.nodes.toList) ∧
        p.failures.filter (·.ruleId == r.id) =
          ((e.reader t r).failure? t.nodes.toList).toList ∧
        ((∃ f, p.failures.filter (·.ruleId == r.id) = [f]) ↔
          ∃ n ∈ t.nodes.toList, r.kinds.contains n.kind = true ∧
            ∃ fault, r.evaluate (e.context t r) n = .error (.raised fault))) ∧
      (∀ id ∈ p.findings.map Finding.ruleId ++ p.failures.map Failure.ruleId,
        id ∈ e.rules.map Rule.id) ∧
      Sorted p.findings) ∧
    ∀ rules : List Rule, e.rules.Perm rules → ∀ p, e.analysis t = .ok p →
      ∃ p', Engine.analysis { e with rules } t = .ok p' ∧ p'.findings = p.findings ∧
        p'.failures.Perm p.failures := by
  refine ⟨analysis_eq_raised_iff hids hsigns hends, fun hlists => ?_, fun rules hperm p hp => ?_⟩
  · have hlisted : e.analysis t = .ok (e.run t).sorted := by
      rcases listed_cases (e.run t) with ⟨hstuck, -⟩ | ⟨-, -, hraised⟩ | ⟨-, -, hlisted⟩
      · exact absurd ((isStuck_run hends).symm.trans hstuck) (by decide)
      · exact absurd hraised hlists
      · exact hlisted
    refine ⟨_, hlisted, fun r hr => ?_, fun id hid => ?_, sorted_sortFindings _⟩
    · have hpart := only_run_of_mem hids hsigns hends hr
      have hfailures : (e.run t).failures.filter (·.ruleId == r.id) =
          ((e.reader t r).failure? t.nodes.toList).toList := congrArg Progress.failures hpart
      refine ⟨?_, hfailures, ?_⟩
      · show (sortFindings (e.run t).findings).filter _ = _
        rw [filter_sortFindings]
        exact congrArg (fun p => sortFindings p.findings) hpart
      · show (∃ f, (e.run t).failures.filter _ = [f]) ↔ _
        rw [hfailures]
        refine Iff.trans ?_ ((e.reader t r).isSome_failure?_iff t.nodes.toList)
        cases (e.reader t r).failure? t.nodes.toList <;> simp
    · refine ruleId_mem_of_run hsigns hends ?_
      have hsame := ((sortFindings_perm (e.run t).findings).map Finding.ruleId).append_right
        ((e.run t).failures.map Failure.ruleId)
      exact hsame.mem_iff.mp hid
  · exact analysis_perm hids hsigns hends hperm hp

/-- A call that makes a new id. -/
def newIdCall (index : Nat) (parent : Option Nat) : Node :=
  { kind := .invocation, index, parent, span := ⟨12, 9, 12, 23⟩,
    symbol := some { name := "NewGuid", containingType := some "System.Guid", isStatic := true } }

/-- The call is found in any tree. -/
theorem evaluate_newIdCall (rules : List Rule) (t : Tree) (index : Nat) (parent : Option Nat) :
    (Engine.reader { rules } t guidCreation).rule.evaluate
        (Engine.reader { rules } t guidCreation).context (newIdCall index parent) =
      .ok (some ⟨"SEAM006", t.path, ⟨12, 9, 12, 23⟩, []⟩) := by
  have hdefaults : Settings.sortDefaults [] = [] := List.mergeSort_nil
  simp only [Engine.reader, Engine.context, Settings.resolve, Settings.resolveWith,
    Settings.Request.normal, guidCreation, hdefaults]
  rfl

/-- A method whose only child is missing, a call that makes a new id, and another method. -/
def brokenTree : Tree where
  path := "src/App/Service.cs"
  nodes := #[{ kind := .method, index := 0, children := [7] }, newIdCall 1 none,
    { kind := .method, index := 2 }]

theorem complexityAt_brokenTree :
    ∀ n ∈ brokenTree.nodes, Measure.complexityAt brokenTree n ≠ .error .endless := by
  intro n hn
  rcases (by simpa [brokenTree] using hn : n = _ ∨ n = _ ∨ n = _) with rfl | rfl | rfl
  · intro h
    cases h
  · intro h
    cases h
  · rw [Measure.complexityAt_of_complexityTo 1 rfl rfl]
    simp

/-- Where the complexity of a method cannot be measured, new ids are found all the same. -/
theorem analyze_isolates_rules_broken :
    let e : Engine := { rules := [highComplexity, guidCreation] }
    (e.rules.map Rule.id).Nodup ∧ (∀ r ∈ e.rules, SignsFindings r) ∧ e.Ends brokenTree ∧
    ∃ p, e.analysis brokenTree = .ok p ∧
      p.failures.filter (·.ruleId == "SEAM020") =
        [⟨"SEAM020", "src/App/Service.cs", .code .missingNode⟩] ∧
      p.findings.filter (·.ruleId == "SEAM006") =
        [⟨"SEAM006", "src/App/Service.cs", ⟨12, 9, 12, 23⟩, []⟩] ∧
      ∃ p', Engine.analysis { e with rules := [guidCreation, highComplexity] } brokenTree = .ok p' ∧
        p'.findings = p.findings := by
  intro e
  have hids : (e.rules.map Rule.id).Nodup := by decide
  have hrules : e.rules ⊆ catalog := by simp [e, catalog]
  have hsigns : ∀ r ∈ e.rules, SignsFindings r := fun r hr => signs_of_mem_catalog (hrules hr)
  have hends : e.Ends brokenTree :=
    ends_of_complexity (fun _ hr => hrules hr) complexityAt_brokenTree
  have hmethods : (e.reader brokenTree highComplexity).findings brokenTree.nodes.toList = [] := rfl
  have hcalls : (e.reader brokenTree guidCreation).findings brokenTree.nodes.toList =
      [⟨"SEAM006", "src/App/Service.cs", ⟨12, 9, 12, 23⟩, []⟩] := by
    have hshown : (e.reader brokenTree guidCreation).shown brokenTree.nodes.toList =
        [newIdCall 1 none] := rfl
    rw [Reader.findings, hshown]
    exact Reader.findingsIn_singleton (evaluate_newIdCall e.rules brokenTree 1 none)
  obtain ⟨hrefused, hlists, hperm⟩ := analyze_isolates_rules e brokenTree hids hsigns hends
  have hlisted : e.analysis brokenTree ≠ .error (.raised {}) := by
    rw [Ne, hrefused]
    simp [e, hmethods, hcalls, Finding.isShowable]
  obtain ⟨p, hp, hrule, -, -⟩ := hlists hlisted
  obtain ⟨p', hp', hsame, -⟩ := hperm [guidCreation, highComplexity] (List.Perm.swap ..) p hp
  refine ⟨hids, hsigns, hends, p, hp, ?_, ?_, p', hp', hsame⟩
  · exact (hrule highComplexity (by simp [e])).2.1
  · have hfindings := (hrule guidCreation (by simp [e])).1
    rw [hcalls] at hfindings
    exact hfindings.trans (List.mergeSort_singleton _)

/-! ## A finding that cannot be listed -/

/-- Without an answer of its provider, private methods may have fifty lines. -/
theorem hasThreshold_lines {answer : Settings.Answer} (h : answer.text? = none)
    (rules : List Rule) (tables : Surroundings.Tables) (t : Tree) :
    (Engine.context ⟨rules, fun _ _ => answer, tables⟩ t largePrivateMethod).HasThreshold
      lineThreshold 50 := by
  have hsort : Settings.sortDefaults [(lineThreshold, 50)] = [(lineThreshold, 50)] :=
    List.mergeSort_singleton _
  refine ⟨⟨"SEAM011", [], [], [], [(lineThreshold, 50)]⟩, ?_, rfl⟩
  simp only [Engine.context, Settings.resolve, Settings.resolveWith, Settings.Request.normal,
    largePrivateMethod, hsort]
  cases answer with
  | text s => cases h
  | unset => rfl
  | failed => rfl

/-- A private method with a block, with as many lines as can be read before and after line zero. -/
def longMethod (index : Nat) : Node :=
  let big : Int := 10 ^ Number.digitLimit - 1
  { kind := .method, modifiers := ["private"], span := ⟨-big, 1, big, 1⟩, index,
    parent := some 0, children := [index + 1] }

/-- A tree with the method and a call that makes a new id. -/
def longMethodTree : Tree where
  path := "src/App/Service.cs"
  nodes := #[{ kind := .compilationUnit, index := 0, children := [1, 3] }, longMethod 1,
    { kind := .block, index := 2, parent := some 1 }, newIdCall 3 (some 0)]

/-- The lines of the method are more than can be shown. -/
theorem lineCount_longMethod (index : Nat) :
    50 < (longMethod index).span.lineCount ∧
      Number.isWritable (longMethod index).span.lineCount = false := by
  have hlimit : (10 : Int) ^ 2 ≤ 10 ^ Number.digitLimit :=
    pow_le_pow_right₀ (by decide) (by decide)
  have hlines : (longMethod index).span.lineCount =
      (10 ^ Number.digitLimit - 1) - -(10 ^ Number.digitLimit - 1) + 1 := rfl
  rw [← Bool.not_eq_true, Number.isWritable_iff_lt]
  omega

theorem evaluate_longMethod (rules : List Rule) :
    (Engine.reader { rules } longMethodTree largePrivateMethod).rule.evaluate
        (Engine.reader { rules } longMethodTree largePrivateMethod).context (longMethod 1) =
      .ok (some ⟨"SEAM011", "src/App/Service.cs", (longMethod 1).span,
        [.text "", .number (longMethod 1).span.lineCount]⟩) :=
  evaluate_largePrivateMethod rfl rfl rfl (hasThreshold_lines rfl rules {} longMethodTree)
    (lineCount_longMethod 1).1

/-- What the rule for large methods finds cannot be listed. -/
theorem analysis_longMethodTree :
    Engine.analysis { rules := [guidCreation, largePrivateMethod] } longMethodTree =
      .error (.raised {}) := by
  let e : Engine := { rules := [guidCreation, largePrivateMethod] }
  have hvisits : visits (e.readers longMethodTree) longMethodTree.nodes.toList =
      [(e.reader longMethodTree largePrivateMethod, longMethod 1),
        (e.reader longMethodTree guidCreation, newIdCall 3 (some 0))] := rfl
  have hmethod := evaluate_longMethod e.rules
  have hcall := evaluate_newIdCall e.rules longMethodTree 3 (some 0)
  have hfinds : (e.reader longMethodTree largePrivateMethod).finding? (longMethod 1) = some _ :=
    Reader.finding?_of_evaluate hmethod
  show (e.run longMethodTree).listed = _
  rw [Engine.run, hvisits,
    foldl_visit_of_gives (by simpa using ⟨⟨_, hmethod, trivial⟩, ⟨_, hcall, trivial⟩⟩)]
  simp only [List.filterMap_cons, hfinds, List.nil_append]
  refine listed_eq_raised_iff.mpr ⟨rfl, _, List.mem_cons_self, ?_⟩
  simp [Finding.isShowable, Argument.isShowable, (lineCount_longMethod 1).2]

/-- The call is found, and beside the rule for large methods nothing is, although that rule does
not fail. -/
theorem long_method_hides_findings :
    Engine.analysis { rules := [guidCreation] } longMethodTree =
      .ok { findings := [⟨"SEAM006", "src/App/Service.cs", ⟨12, 9, 12, 23⟩, []⟩] } ∧
    (∃ f, largePrivateMethod.evaluate
      (Engine.context { rules := [guidCreation, largePrivateMethod] } longMethodTree
        largePrivateMethod) (longMethod 1) = .ok (some f)) ∧
    Engine.analysis { rules := [guidCreation, largePrivateMethod] } longMethodTree =
      .error (.raised {}) := by
  refine ⟨?_, ⟨_, evaluate_longMethod _⟩, analysis_longMethodTree⟩
  let e : Engine := { rules := [guidCreation] }
  have hcall := evaluate_newIdCall e.rules longMethodTree 3 (some 0)
  have hvisits : visits (e.readers longMethodTree) longMethodTree.nodes.toList =
      [(e.reader longMethodTree guidCreation, newIdCall 3 (some 0))] := rfl
  have hfinds : (e.reader longMethodTree guidCreation).finding? (newIdCall 3 (some 0)) =
      some ⟨"SEAM006", "src/App/Service.cs", ⟨12, 9, 12, 23⟩, []⟩ :=
    Reader.finding?_of_evaluate hcall
  show (e.run longMethodTree).listed = _
  rw [Engine.run, hvisits, foldl_visit_of_gives (by simpa using ⟨_, hcall, trivial⟩)]
  simp only [List.filterMap_cons, hfinds]
  refine listed_eq_ok_iff.mpr ⟨rfl, by simp [Finding.isShowable], ?_⟩
  exact congrArg (Progress.mk · [] false) (List.mergeSort_singleton _).symm

end SeamLint.Scan
