import SeamLint.Proofs.RuleIsolation
import SeamLint.Proofs.SharedResolver

set_option autoImplicit false

/-! # Neither the order of trees nor that of the work shows in a scan

Trees are worked on side by side. A `Pool` holds one `Job` for each tree and one resolver for
all of them, and a list of turns says which job goes on when. Where a visit asks for
settings, looking them up and keeping what was resolved after a vain look-up are two turns,
between which other jobs may keep settings of their own.

A job always comes to what its tree comes to on its own (`Job.outcome`): a turn takes one
visit off the front of what is left to do and adds what the visit gives to what has been
done, and the resolver that it consults answers as if it were new (`Resolver.Sound`). So
every way to finish the jobs gives what `Engine.report` gives. That the order of the trees
does not show either is a matter of the order of findings: those of the catalogue tie only if
they are equal (`eq_of_ties_of_fromCatalog`). A tree with a finding that cannot be listed leaves
no report, wherever it stands (`no_report_beside_long_method`).
-/

namespace SeamLint.Scan

open SeamLint.Code SeamLint.Finding SeamLint.Rule SeamLint.Settings

/-! ## Jobs and pools -/

/-- A tree in work: the visits that are still to make, whether the settings for the first of
them were looked up in vain, and what the visits so far have come to. -/
structure Job where
  tree : Tree
  todo : List (Rule × Node)
  missed : Bool := false
  progress : Progress := {}

/-- Trees in work that share a resolver. -/
structure Pool where
  jobs : List Job
  resolver : Resolver := {}

/-- One turn: which job goes on, and whether the rule of its next visit asks for its
settings. -/
structure Turn where
  job : Nat
  consults : Bool

/-- The work on a tree before its first visit. -/
def Engine.job (e : Engine) (t : Tree) : Job where
  tree := t
  todo := (visits (e.readers t) t.nodes.toList).map fun v => (v.1.rule, v.2)

/-- The work on trees before the first turn, with nothing resolved. -/
def Engine.pool (e : Engine) (trees : List Tree) : Pool where
  jobs := trees.map e.job

/-- The question for the settings of a rule in the scope of a tree. -/
def requestFor (t : Tree) (r : Rule) : Request := ⟨r.id, t.path, r.thresholds⟩

/-- A rule, ready for a tree, with settings that came from somewhere. -/
def Engine.readerWith (e : Engine) (t : Tree) (r : Rule)
    (settings : Except Number.IntegerFault RuleSettings) : Reader :=
  ⟨r, ⟨t, e.tables, settings.mapError fun fault => .raised (.integer fault)⟩⟩

/-- The job after it has shown the node to the rule under the given settings. -/
def Job.advance (e : Engine) (job : Job) (r : Rule) (n : Node) (rest : List (Rule × Node))
    (settings : Except Number.IntegerFault RuleSettings) : Job where
  tree := job.tree
  todo := rest
  progress := job.progress.visit (e.readerWith job.tree r settings, n)

/-- One turn of a job. A job that is stuck does not go on. After a vain look-up the settings are
resolved and kept. Otherwise a rule that asks for its settings has them looked up, and goes on if
they are there. A rule that does not ask sees whatever the resolver would answer and leaves the
resolver alone. -/
def Job.step (e : Engine) (resolver : Resolver) (consults : Bool) (job : Job) : Job × Resolver :=
  match job.todo with
  | [] => (job, resolver)
  | (r, n) :: rest =>
      let q := requestFor job.tree r
      if job.progress.isStuck then (job, resolver)
      else if job.missed then
        match (resolve e.provider q).settings with
        | .error fault => (job.advance e r n rest (.error fault), resolver)
        | .ok s => (job.advance e r n rest (.ok (resolver.keep q s).1), (resolver.keep q s).2)
      else if consults then
        match resolver.find? q with
        | some s => (job.advance e r n rest (.ok s), resolver)
        | none => ({ job with missed := true }, resolver)
      else
        (job.advance e r n rest (resolver.resolve e.provider q).1.settings, resolver)

/-- One turn of a pool. A turn for a job that is not there changes nothing. -/
def Pool.turn (e : Engine) (p : Pool) (turn : Turn) : Pool :=
  match p.jobs[turn.job]? with
  | none => p
  | some job =>
      let next := job.step e p.resolver turn.consults
      ⟨p.jobs.set turn.job next.1, next.2⟩

/-- The pool after some turns. -/
def Pool.run (e : Engine) (p : Pool) (turns : List Turn) : Pool := turns.foldl (Pool.turn e) p

/-- No job has anything left to do, and none is stuck. -/
def Pool.isDone (p : Pool) : Bool :=
  p.jobs.all fun job => job.todo.isEmpty && !job.progress.isStuck

/-- What the jobs have come to, tree by tree, if it can be listed. -/
def Pool.results (p : Pool) : Except (Code.Stop Number.Unwritable) (List Progress) :=
  p.jobs.mapM fun job => job.progress.listed

/-- The report on what the jobs have come to. -/
def Pool.report (e : Engine) (p : Pool) : Except (Code.Stop Number.Unwritable) Report := do
  return e.collect (← p.results)

/-! ## What a job comes to -/

/-- What a job comes to if it goes on alone, with settings that are resolved afresh. -/
def Job.outcome (e : Engine) (job : Job) : Progress :=
  (job.todo.map fun v => (e.reader job.tree v.1, v.2)).foldl Progress.visit job.progress

theorem outcome_job (e : Engine) (t : Tree) : (e.job t).outcome e = e.run t := by
  have hback : (visits (e.readers t) t.nodes.toList).map
      (fun v => (e.reader t v.1.rule, v.2)) = visits (e.readers t) t.nodes.toList := by
    refine (List.map_congr_left fun v hv => ?_).trans (List.map_id _)
    obtain ⟨r, -, hr⟩ := exists_rule_of_mem_visits hv
    rw [hr]
    exact Prod.ext hr.symm rfl
  unfold Job.outcome Engine.job Engine.run
  rw [List.map_map]
  exact congrArg (List.foldl Progress.visit {}) hback

/-- Making the next visit under the right settings leaves the outcome as it is. -/
theorem outcome_advance (e : Engine) (job : Job) {r : Rule} {n : Node}
    {rest : List (Rule × Node)} (htodo : job.todo = (r, n) :: rest)
    {settings : Except Number.IntegerFault RuleSettings}
    (hsettings : settings = (resolve e.provider (requestFor job.tree r)).settings) :
    (job.advance e r n rest settings).outcome e = job.outcome e := by
  subst hsettings
  unfold Job.outcome
  rw [htodo, List.map_cons, List.foldl_cons]
  rfl

/-! ## Single turns -/

/-- **A turn leaves the outcome of its job as it is**, whatever the other jobs have made of
the resolver. -/
theorem outcome_step (e : Engine) {resolver : Resolver} (h : resolver.Sound e.provider)
    (consults : Bool) (job : Job) :
    (job.step e resolver consults).1.outcome e = job.outcome e := by
  unfold Job.step
  split
  · rfl
  · next r n rest htodo =>
      dsimp only
      split
      · rfl
      · split
        · cases hs : (resolve e.provider (requestFor job.tree r)).settings with
          | error fault => exact outcome_advance e job htodo hs.symm
          | ok s =>
              refine outcome_advance e job htodo ?_
              rw [keep_fst_of_sound h hs, hs]
        · split
          · cases hfind : resolver.find? (requestFor job.tree r) with
            | none => rfl
            | some s => exact outcome_advance e job htodo (find?_sound h hfind).symm
          · exact outcome_advance e job htodo (settings_resolve h _)

/-- A turn leaves the resolver sound. -/
theorem sound_step (e : Engine) {resolver : Resolver} (h : resolver.Sound e.provider)
    (consults : Bool) (job : Job) : (job.step e resolver consults).2.Sound e.provider := by
  unfold Job.step
  split
  · exact h
  · next r n rest htodo =>
      dsimp only
      split
      · exact h
      · split
        · cases hs : (resolve e.provider (requestFor job.tree r)).settings with
          | error fault => exact h
          | ok s => exact keep_sound h hs
        · split
          · cases resolver.find? (requestFor job.tree r) with
            | none => exact h
            | some s => exact h
          · exact h

/-- A rule that does not ask for its settings gets its visit done in one turn. -/
theorem todo_step (e : Engine) (resolver : Resolver) {job : Job}
    (hstuck : job.progress.isStuck = false) :
    (job.step e resolver false).1.todo = job.todo.tail := by
  unfold Job.step
  split
  · next htodo => rw [htodo]; rfl
  · next r n rest htodo =>
      rw [htodo]
      dsimp only
      rw [if_neg (by simp [hstuck])]
      split
      · cases (resolve e.provider (requestFor job.tree r)).settings <;> rfl
      · rfl

/-- A job that is stuck stays so. -/
theorem isStuck_outcome (e : Engine) {job : Job} (h : job.progress.isStuck = true) :
    (job.outcome e).isStuck = true := by
  unfold Job.outcome
  generalize job.todo.map (fun v => (e.reader job.tree v.1, v.2)) = vs
  induction vs with
  | nil => exact h
  | cons v vs ih =>
      have hvisit : job.progress.visit v = job.progress := by simp [Progress.visit, h]
      rw [List.foldl_cons, hvisit, ih]

/-! ## Whole runs -/

/-- The resolver is sound and every job comes to what its tree comes to on its own. -/
structure Pool.Faithful (e : Engine) (trees : List Tree) (p : Pool) : Prop where
  sound : p.resolver.Sound e.provider
  outcomes : p.jobs.map (Job.outcome e) = trees.map e.run

theorem faithful_pool (e : Engine) (trees : List Tree) : (e.pool trees).Faithful e trees where
  sound := sound_empty e.provider
  outcomes := by
    unfold Engine.pool
    rw [List.map_map]
    exact List.map_congr_left fun t _ => outcome_job e t

theorem faithful_turn {e : Engine} {trees : List Tree} {p : Pool} (h : p.Faithful e trees)
    (turn : Turn) : (p.turn e turn).Faithful e trees := by
  unfold Pool.turn
  cases hjob : p.jobs[turn.job]? with
  | none => exact h
  | some job =>
      refine ⟨sound_step e h.sound _ job, ?_⟩
      obtain ⟨hlt, hget⟩ := List.getElem?_eq_some_iff.mp hjob
      have hlt' : turn.job < (p.jobs.map (Job.outcome e)).length := by simpa using hlt
      have hsame : (p.jobs.map (Job.outcome e))[turn.job] = job.outcome e := by
        rw [List.getElem_map, hget]
      simp only [List.map_set, outcome_step e h.sound]
      rw [← hsame, List.set_getElem_self, h.outcomes]

theorem faithful_run {e : Engine} {trees : List Tree} {p : Pool} (h : p.Faithful e trees)
    (turns : List Turn) : (p.run e turns).Faithful e trees := by
  induction turns generalizing p with
  | nil => exact h
  | cons turn turns ih => exact ih (faithful_turn h turn)

/-- When nothing is left to do, every job has come to what `Engine.run` gives for its tree. -/
theorem progress_of_isDone {e : Engine} {trees : List Tree} {p : Pool} (h : p.Faithful e trees)
    (hdone : p.isDone = true) : p.jobs.map Job.progress = trees.map e.run := by
  rw [← h.outcomes]
  refine List.map_congr_left fun job hjob => ?_
  have hnothing := List.all_eq_true.mp hdone job hjob
  have htodo : job.todo = [] := List.isEmpty_iff.mp (Bool.and_eq_true_iff.mp hnothing).1
  simp [Job.outcome, htodo]

theorem results_of_isDone {e : Engine} {trees : List Tree} {p : Pool} (h : p.Faithful e trees)
    (hdone : p.isDone = true) : p.results = trees.mapM e.analysis := by
  have hprogress := congrArg (List.mapM Progress.listed) (progress_of_isDone h hdone)
  rw [List.mapM_map, List.mapM_map] at hprogress
  exact hprogress

/-! ## Every run can be finished -/

theorem sum_map_set_lt {l : List Job} {i : Nat} {job job' : Job} (hjob : l[i]? = some job)
    (hlt : job'.todo.length < job.todo.length) :
    ((l.set i job').map (·.todo.length)).sum < (l.map (·.todo.length)).sum := by
  induction l generalizing i with
  | nil => simp at hjob
  | cons a l ih =>
      cases i with
      | zero =>
          obtain rfl : a = job := by simpa using hjob
          simpa using hlt
      | succ i =>
          have hrest := ih (i := i) (by simpa using hjob)
          simpa using hrest

/-- Some turns finish what is left to do, if no tree is one to get stuck in. -/
theorem exists_turns_isDone {e : Engine} {trees : List Tree} {p : Pool} (h : p.Faithful e trees)
    (hends : ∀ t ∈ trees, (e.run t).isStuck = false) :
    ∃ turns, (p.run e turns).isDone = true := by
  -- by the number of visits that are left; a turn without a look-up makes one
  induction hn : (p.jobs.map (·.todo.length)).sum using Nat.strong_induction_on generalizing p with
  | _ k ih =>
      have hruns : ∀ job ∈ p.jobs, job.progress.isStuck = false := by
        intro job hjob
        have hmem := List.mem_map_of_mem (f := Job.outcome e) hjob
        rw [h.outcomes] at hmem
        obtain ⟨t, ht, houtcome⟩ := List.mem_map.mp hmem
        refine Bool.eq_false_iff.mpr fun hstuck => ?_
        have hends := hends t ht
        rw [houtcome, isStuck_outcome e hstuck] at hends
        cases hends
      by_cases hdone : p.isDone = true
      · exact ⟨[], hdone⟩
      · obtain ⟨job, hmem, htodo⟩ : ∃ job ∈ p.jobs, job.todo ≠ [] := by
          by_contra hnone
          refine hdone (List.all_eq_true.mpr fun job hjob => ?_)
          have htodo : job.todo = [] := by
            by_contra htodo
            exact hnone ⟨job, hjob, htodo⟩
          simp [htodo, hruns job hjob]
        obtain ⟨i, hi⟩ := List.mem_iff_getElem?.mp hmem
        have hturn : p.turn e ⟨i, false⟩ =
            ⟨p.jobs.set i (job.step e p.resolver false).1, (job.step e p.resolver false).2⟩ := by
          simp only [Pool.turn, hi]
        have hless : (job.step e p.resolver false).1.todo.length < job.todo.length := by
          rw [todo_step e p.resolver (hruns job hmem), List.length_tail]
          have := List.length_pos_iff.mpr htodo
          omega
        obtain ⟨turns, hturns⟩ := ih _ (hn ▸ sum_map_set_lt hi hless)
          (faithful_turn h ⟨i, false⟩) (by rw [hturn])
        exact ⟨⟨i, false⟩ :: turns, hturns⟩

/-! ## Trees in another order -/

/-- Everything that a run holds in the end was there before or was found on a visit. -/
theorem mem_findings_foldl_visit {vs : List (Reader × Node)} {p : Progress} {f : Finding}
    (hf : f ∈ (vs.foldl Progress.visit p).findings) :
    f ∈ p.findings ∨ ∃ v ∈ vs, v.1.finding? v.2 = some f := by
  induction vs generalizing p with
  | nil => exact Or.inl hf
  | cons v vs ih =>
      obtain ⟨r, n⟩ := v
      rcases ih hf with hf | ⟨v, hv, hfound⟩
      · rw [visit_eq] at hf
        split at hf
        · exact Or.inl hf
        · rcases List.mem_append.mp hf with hf | hf
          · exact Or.inl hf
          · exact Or.inr ⟨(r, n), List.mem_cons_self, Option.mem_toList.mp hf⟩
      · exact Or.inr ⟨v, List.mem_cons_of_mem _ hv, hfound⟩

/-- Every finding in a tree was made by one of the rules at a node that it was shown. -/
theorem exists_visit_of_mem_run {e : Engine} {t : Tree} {f : Finding}
    (hf : f ∈ (e.run t).findings) :
    ∃ r ∈ e.rules, ∃ n ∈ t.nodes, r.kinds.contains n.kind = true ∧
      r.evaluate (e.context t r) n = .ok (some f) := by
  rcases mem_findings_foldl_visit hf with hf | ⟨v, hv, hfound⟩
  · cases hf
  · obtain ⟨r, hr, hreader⟩ := exists_rule_of_mem_visits hv
    obtain ⟨hn, hkind⟩ := mem_of_mem_visits hv
    rw [hreader] at hfound hkind
    refine ⟨r, hr, v.2, Array.mem_toList_iff.mp hn, hkind, ?_⟩
    unfold Reader.finding? at hfound
    split at hfound
    · next finding heq =>
        rw [← hfound]
        exact heq
    · cases hfound

theorem fromCatalog_of_mem_analyze {e : Engine} (hrules : ∀ r ∈ e.rules, r ∈ catalog) {t : Tree}
    {f : Finding} (hf : f ∈ (e.analyze t).findings) : FromCatalog f := by
  obtain ⟨r, hr, n, -, -, hfound⟩ := exists_visit_of_mem_run ((sortFindings_perm _).mem_iff.mp hf)
  exact ⟨r, hrules r hr, e.context t r, n, hfound⟩

/-- Findings of the catalogue tie only if they are equal. -/
theorem eq_of_ties_of_fromCatalog {a b : Finding} (ha : FromCatalog a) (hb : FromCatalog b)
    (h : ties a b = true) : a = b := by
  obtain ⟨hpath, hspan, hid, hshown⟩ := (ties_iff a b).mp h
  exact eq_of_shown_eq ha hb hpath hspan hid hshown

/-! ## Reports -/

theorem eq_analyze_of_analysis {e : Engine} {t : Tree} {p : Progress} (h : e.analysis t = .ok p) :
    p = e.analyze t := (listed_eq_ok_iff.mp h).2.2

/-- There are analyses of all trees, or one of the trees has none. -/
theorem mapM_analysis (e : Engine) (trees : List Tree) :
    (∀ t ∈ trees, ∃ p, e.analysis t = .ok p) ∧
      trees.mapM e.analysis = .ok (trees.map e.analyze) ∨
    ∃ t ∈ trees, ∃ stop, e.analysis t = .error stop ∧ trees.mapM e.analysis = .error stop := by
  induction trees with
  | nil => exact Or.inl ⟨by simp, rfl⟩
  | cons t trees ih =>
      rw [List.mapM_cons]
      cases ht : e.analysis t with
      | error stop => exact Or.inr ⟨t, List.mem_cons_self, stop, ht, rfl⟩
      | ok p =>
          rcases ih with ⟨hall, hmap⟩ | ⟨u, hu, stop, hstop, hmap⟩
          · left
            refine ⟨List.forall_mem_cons.mpr ⟨⟨p, ht⟩, hall⟩, ?_⟩
            rw [hmap, eq_analyze_of_analysis ht]
            rfl
          · right
            refine ⟨u, List.mem_cons_of_mem _ hu, stop, hstop, ?_⟩
            rw [hmap]
            rfl

theorem mapM_analysis_of_forall {e : Engine} {trees : List Tree}
    (h : ∀ t ∈ trees, ∃ p, e.analysis t = .ok p) :
    trees.mapM e.analysis = .ok (trees.map e.analyze) := by
  rcases mapM_analysis e trees with ⟨-, hmap⟩ | ⟨t, ht, stop, hstop, -⟩
  · exact hmap
  · obtain ⟨p, hp⟩ := h t ht
    rw [hstop] at hp
    cases hp

/-- **There is a report if and only if every tree has an analysis.** -/
theorem report_eq_ok_iff {e : Engine} {trees : List Tree} {report : Report} :
    e.report trees = .ok report ↔
      (∀ t ∈ trees, ∃ p, e.analysis t = .ok p) ∧ report = e.scan trees := by
  constructor
  · intro h
    unfold Engine.report at h
    rcases mapM_analysis e trees with ⟨hall, hmap⟩ | ⟨t, ht, stop, hstop, hmap⟩
    · rw [hmap] at h
      exact ⟨hall, (Except.ok.inj h).symm⟩
    · rw [hmap] at h
      cases h
  · rintro ⟨hall, rfl⟩
    unfold Engine.report
    rw [mapM_analysis_of_forall hall]
    rfl

theorem eq_scan_of_report {e : Engine} {trees : List Tree} {report : Report}
    (h : e.report trees = .ok report) : report = e.scan trees := (report_eq_ok_iff.mp h).2

/-- Where there is no report, one of the trees is the reason. -/
theorem exists_analysis_of_report {e : Engine} {trees : List Tree}
    {stop : Code.Stop Number.Unwritable} (h : e.report trees = .error stop) :
    ∃ t ∈ trees, e.analysis t = .error stop := by
  unfold Engine.report at h
  rcases mapM_analysis e trees with ⟨-, hmap⟩ | ⟨t, ht, stop', hstop, hmap⟩
  · rw [hmap] at h
    cases h
  · rw [hmap] at h
    obtain rfl : stop' = stop := Except.error.inj h
    exact ⟨t, ht, hstop⟩

/-- A tree without an analysis has a node at which a rule never ends, or finds something that
cannot be shown. -/
theorem exists_analysis_or (e : Engine) (t : Tree) :
    (∃ p, e.analysis t = .ok p) ∨
    ∃ r ∈ e.rules, ∃ n ∈ t.nodes, r.kinds.contains n.kind = true ∧
      (r.evaluate (e.context t r) n = .error .endless ∨
        ∃ f, r.evaluate (e.context t r) n = .ok (some f) ∧ f.isShowable = false) := by
  rcases listed_cases (e.run t) with ⟨hstuck, -⟩ | ⟨-, ⟨f, hf, hshowable⟩, -⟩ | ⟨-, -, hlisted⟩
  · right
    by_contra hnone
    have hends : e.Ends t := fun r hr n hn hkind hendless =>
      hnone ⟨r, hr, n, hn, hkind, Or.inl hendless⟩
    exact absurd ((isStuck_run hends).symm.trans hstuck) (by decide)
  · right
    obtain ⟨r, hr, n, hn, hkind, hfound⟩ := exists_visit_of_mem_run hf
    exact ⟨r, hr, n, hn, hkind, Or.inr ⟨f, hfound, hshowable⟩⟩
  · exact Or.inl ⟨_, hlisted⟩

theorem scan_findings_perm {e : Engine} (hrules : ∀ r ∈ e.rules, r ∈ catalog)
    {trees trees' : List Tree} (h : trees.Perm trees') :
    (e.scan trees').findings = (e.scan trees).findings := by
  have hcatalog : ∀ f ∈ (trees.map e.analyze).flatMap Progress.findings, FromCatalog f := by
    intro f hf
    obtain ⟨p, hp, hf⟩ := List.mem_flatMap.mp hf
    obtain ⟨t, -, rfl⟩ := List.mem_map.mp hp
    exact fromCatalog_of_mem_analyze hrules hf
  refine (sortFindings_eq_of_perm ((h.map e.analyze).flatMap_right Progress.findings) ?_).symm
  intro a ha b hb htie
  exact eq_of_ties_of_fromCatalog (hcatalog a ha) (hcatalog b hb) htie

theorem scan_errors_perm (e : Engine) {trees trees' : List Tree} (h : trees.Perm trees') :
    (e.scan trees').errors.Perm (e.scan trees).errors :=
  ((h.map e.analyze).flatMap_right _).symm

/-! ## The independence of scans -/

/-- **A scan does not depend on the order of trees or of the work.** For rules of the
catalogue, any options and any trees, there is a report if and only if every tree has an analysis
on its own, with a resolver of its own; a tree has none only if a rule never ends at one of its
nodes or finds something there that cannot be shown. If there is a report, trees in another
order have a report with the same findings, as many trees and the same errors up to their order;
the findings are in order, and they are the findings of the trees, each as often as it was made.
Jobs on the trees that share a resolver come to the same as the scan, whatever turns they take, and
a job on a tree alone comes to the analysis of the tree. Jobs can be finished after any turns,
unless there is no end to one of the trees. -/
theorem scan_independent_of_order (e : Engine) (hrules : ∀ r ∈ e.rules, r ∈ catalog)
    (trees : List Tree) :
    ((∃ report, e.report trees = .ok report) ↔ ∀ t ∈ trees, ∃ p, e.analysis t = .ok p) ∧
    (∀ t : Tree, (∃ p, e.analysis t = .ok p) ∨
      ∃ r ∈ e.rules, ∃ n ∈ t.nodes, r.kinds.contains n.kind = true ∧
        (r.evaluate (e.context t r) n = .error .endless ∨
          ∃ f, r.evaluate (e.context t r) n = .ok (some f) ∧ f.isShowable = false)) ∧
    (∀ report, e.report trees = .ok report →
      (∀ trees' : List Tree, trees.Perm trees' → ∃ report', e.report trees' = .ok report' ∧
        report'.findings = report.findings ∧ report'.trees = report.trees ∧
        report'.errors.Perm report.errors) ∧
      Sorted report.findings ∧ report.trees = trees.length ∧
      ∃ results, trees.mapM e.analysis = .ok results ∧
        report.findings.Perm (results.flatMap Progress.findings) ∧
        report.errors = results.flatMap fun p => p.failures.map Failure.message) ∧
    (∀ turns : List Turn, ((e.pool trees).run e turns).isDone = true →
      ((e.pool trees).run e turns).report e = e.report trees) ∧
    (∀ (t : Tree) (turns : List Turn), ((e.pool [t]).run e turns).isDone = true →
      ((e.pool [t]).run e turns).results = (e.analysis t).map ([·])) ∧
    ((∀ t ∈ trees, e.analysis t ≠ .error .endless) → ∀ turns : List Turn, ∃ more : List Turn,
      ((e.pool trees).run e (turns ++ more)).isDone = true) := by
  refine ⟨?_, exists_analysis_or e, fun report hreport => ?_, fun turns hdone => ?_,
    fun t turns hdone => ?_, fun hends turns => ?_⟩
  · exact ⟨fun ⟨report, h⟩ => (report_eq_ok_iff.mp h).1,
      fun h => ⟨_, report_eq_ok_iff.mpr ⟨h, rfl⟩⟩⟩
  · obtain ⟨hall, rfl⟩ := report_eq_ok_iff.mp hreport
    refine ⟨fun trees' hperm => ?_, sorted_sortFindings _, List.length_map _, ?_⟩
    · have hall' : ∀ t ∈ trees', ∃ p, e.analysis t = .ok p :=
        fun t ht => hall t (hperm.mem_iff.mpr ht)
      refine ⟨_, report_eq_ok_iff.mpr ⟨hall', rfl⟩, scan_findings_perm hrules hperm, ?_,
        scan_errors_perm e hperm⟩
      exact (List.length_map _).trans (hperm.length_eq.symm.trans (List.length_map _).symm)
    · exact ⟨_, mapM_analysis_of_forall hall, sortFindings_perm _, rfl⟩
  · unfold Pool.report Engine.report
    rw [results_of_isDone (faithful_run (faithful_pool e trees) turns) hdone]
  · rw [results_of_isDone (faithful_run (faithful_pool e [t]) turns) hdone, List.mapM_cons]
    cases e.analysis t <;> rfl
  · have hruns : ∀ t ∈ trees, (e.run t).isStuck = false := by
      intro t ht
      rcases listed_cases (e.run t) with ⟨-, hendless⟩ | ⟨hruns, -⟩ | ⟨hruns, -⟩
      · exact absurd hendless (hends t ht)
      · exact hruns
      · exact hruns
    obtain ⟨more, hmore⟩ := exists_turns_isDone (faithful_run (faithful_pool e trees) turns) hruns
    refine ⟨more, ?_⟩
    rwa [Pool.run, List.foldl_append]

/-- A call that makes a new id can be listed with what else is in its tree. -/
theorem isListed_newIdCall (rules : List Rule) (t : Tree) (index : Nat) (parent : Option Nat) :
    ¬(guidCreation.evaluate (Engine.context { rules } t guidCreation) (newIdCall index parent) =
        .error .endless ∨
      ∃ f, guidCreation.evaluate (Engine.context { rules } t guidCreation)
        (newIdCall index parent) = .ok (some f) ∧ f.isShowable = false) := by
  have hfound := evaluate_newIdCall rules t index parent
  rintro (h | ⟨f, h, hshowable⟩)
  · cases hfound.symm.trans h
  · obtain rfl := Option.some.inj (Except.ok.inj (hfound.symm.trans h))
    cases hshowable

/-- Two trees of one path in both orders, and jobs that both look for settings before either
keeps them. -/
theorem scan_independent_of_order_broken :
    let e : Engine := { rules := [guidCreation, highComplexity] }
    let trees := [brokenTree, ⟨brokenTree.path, brokenTree.nodes.toList.reverse.toArray⟩]
    (∀ r ∈ e.rules, r ∈ catalog) ∧
    ∃ report report', e.report trees = .ok report ∧ e.report trees.reverse = .ok report' ∧
      report'.findings = report.findings ∧
      ∃ more : List Turn,
        ((e.pool trees).run e ([⟨0, true⟩, ⟨1, true⟩, ⟨1, true⟩, ⟨0, true⟩] ++ more)).report e =
          .ok report := by
  intro e trees
  have hrules : e.rules ⊆ catalog := by simp [e, catalog]
  obtain ⟨hexists, hlists, horder, hpool, -, hfinish⟩ :=
    scan_independent_of_order e (fun _ hr => hrules hr) trees
  have hall : ∀ t ∈ trees, ∃ p, e.analysis t = .ok p := by
    intro t ht
    refine (hlists t).resolve_right ?_
    rintro ⟨r, hr, n, hn, hkind, hbad⟩
    rcases (by simpa [e] using hr : r = guidCreation ∨ r = highComplexity) with rfl | rfl
    -- the one rule is shown the call, the other one fails at one method and passes over the other
    all_goals
      rcases (by simpa [trees] using ht : t = _ ∨ t = _) with rfl | rfl
      all_goals
        rcases (by simpa [brokenTree] using hn : n = _ ∨ n = _ ∨ n = _) with rfl | rfl | rfl
        all_goals first
          | exact absurd hkind (by decide)
          | exact isListed_newIdCall e.rules _ 1 none hbad
          | rcases hbad with h | ⟨f, h, -⟩ <;> cases h
  obtain ⟨report, hreport⟩ := hexists.mpr hall
  obtain ⟨horder, -⟩ := horder report hreport
  obtain ⟨report', hreport', hsame, -⟩ := horder trees.reverse (List.reverse_perm trees).symm
  obtain ⟨more, hmore⟩ := hfinish (fun t ht hendless => by
    obtain ⟨p, hp⟩ := hall t ht
    cases hp.symm.trans hendless) [⟨0, true⟩, ⟨1, true⟩, ⟨1, true⟩, ⟨0, true⟩]
  exact ⟨fun _ hr => hrules hr, report, report', hreport, hreport', hsame, more,
    (hpool _ hmore).trans hreport⟩

/-- A tree with a method that is too long to be shown leaves no report on another tree either, in
whatever order the two are. -/
theorem no_report_beside_long_method :
    let e : Engine := { rules := [guidCreation, largePrivateMethod] }
    (∃ report, e.report [brokenTree] = .ok report) ∧
    e.report [brokenTree, longMethodTree] = .error (.raised {}) ∧
    e.report [longMethodTree, brokenTree] = .error (.raised {}) := by
  intro e
  have hlong : e.analysis longMethodTree = .error (.raised {}) := analysis_longMethodTree
  obtain ⟨p, hp⟩ : ∃ p, e.analysis brokenTree = .ok p := by
    refine (exists_analysis_or e brokenTree).resolve_right ?_
    rintro ⟨r, hr, n, hn, hkind, hbad⟩
    rcases (by simpa [e] using hr : r = guidCreation ∨ r = largePrivateMethod) with rfl | rfl
    · rcases (by simpa [brokenTree] using hn : n = _ ∨ n = _ ∨ n = _) with rfl | rfl | rfl
      · exact absurd hkind (by decide)
      · exact isListed_newIdCall e.rules brokenTree 1 none hbad
      · exact absurd hkind (by decide)
    · -- neither method is private
      rcases (by simpa [brokenTree] using hn : n = _ ∨ n = _ ∨ n = _) with rfl | rfl | rfl
      · rcases hbad with h | ⟨f, h, -⟩ <;> cases h
      · exact absurd hkind (by decide)
      · rcases hbad with h | ⟨f, h, -⟩ <;> cases h
  refine ⟨⟨_, report_eq_ok_iff.mpr ⟨by simpa using ⟨p, hp⟩, rfl⟩⟩, ?_, ?_⟩
  · simp only [Engine.report, List.mapM_cons, hp, hlong]
    rfl
  · simp only [Engine.report, List.mapM_cons, hlong]
    rfl

end SeamLint.Scan
