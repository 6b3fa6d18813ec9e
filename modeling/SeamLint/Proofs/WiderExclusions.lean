import SeamLint.Proofs.Exclusions
import SeamLint.Proofs.OptionLayers

set_option autoImplicit false

/-! # Excluding more finds less

Two scans of the same trees by the same rules, where the exclusions of one rule list more in the
second: each entry can cost findings of that rule, and nothing else happens
(`wider_exclusions_narrow`). The scans are followed in step. Settings are the same but for the lists
of the one rule (`alike_settings`), so a judgement stays as it is or becomes a finding less
(`loses_of_optionsWiden`), and what is lost on the way through visits, trees and sorting are some
findings of the one rule (`Thinned`).
-/

namespace SeamLint.Settings

/-! ## Settings -/

/-- The second settings exclude all that the first exclude, and are the same otherwise. -/
structure SettingsWiden (s wider : RuleSettings) : Prop extends Rule.SameButExclusions s wider where
  types : s.excludedTypes ⊆ wider.excludedTypes
  methods : s.excludedMethods ⊆ wider.excludedMethods
  namespaces : s.excludedNamespaces ⊆ wider.excludedNamespaces

section Settings

variable {ruleId : String}

/-- Texts under keys that are no exclusions of the rule are the same. -/
theorem eq_of_widens {key text wider : String} (hkey : key ∉ exclusionKeys ruleId)
    (h : Widens ruleId key text wider) : text = wider := by
  rcases h with heq | ⟨hmem, -⟩
  · exact heq
  · exact absurd hmem hkey

theorem symbolListOf_subset {key : String} {text wider : Option String}
    (h : Option.Rel (Widens ruleId key) text wider) : symbolListOf text ⊆ symbolListOf wider := by
  cases h with
  | none => exact List.Subset.refl _
  | some hwidens =>
      rcases hwidens with rfl | ⟨-, hsubset⟩
      · exact List.Subset.refl _
      · exact hsubset

/-- The name of a threshold that is not taken for an exclusion. -/
def IsThresholdName (name : String) : Prop := '.' ∉ name.toList ∧ name ∉ exclusionSuffixes

theorem optionKey_not_mem_of_isThresholdName {name : String} (h : IsThresholdName name)
    (id : String) : optionKey id name ∉ exclusionKeys ruleId := by
  intro hmem
  obtain ⟨suffix, hsuffix, hdot, heq⟩ := exists_suffix_of_mem_exclusionKeys hmem
  obtain ⟨-, rfl⟩ := optionKey_inj h.1 hdot heq
  exact h.2 hsuffix

theorem optionKey_not_mem_of_ne {id suffix : String} (hid : id ≠ ruleId)
    (hdot : '.' ∉ suffix.toList) : optionKey id suffix ∉ exclusionKeys ruleId := by
  intro hmem
  obtain ⟨suffix', -, hdot', heq⟩ := exists_suffix_of_mem_exclusionKeys hmem
  exact hid (optionKey_inj hdot hdot' heq).1

/-- **Settings from options that list more**: those of other rules are the same, and those of the
rule exclude more. -/
theorem alike_settings {o wider : Options} (h : OptionsWiden ruleId o wider) {q : Request}
    (hnames : ∀ d ∈ q.defaults, IsThresholdName d.1) :
    Alike (fun s s' => SettingsWiden s s' ∧ (q.ruleId ≠ ruleId → s = s'))
      (resolve o.provider q).settings (resolve wider.provider q).settings := by
  have hlookup (key : String) : Option.Rel (Widens ruleId key) (o.provider q.scope key).text?
      (wider.provider q.scope key).text? := by
    rw [text?_provider, text?_provider]
    exact lookup_of_optionsWiden h q.scope key
  have hsame {key : String} (hkey : key ∉ exclusionKeys ruleId) :
      (o.provider q.scope key).text? = (wider.provider q.scope key).text? :=
    eq_of_rel (fun _ _ => eq_of_widens hkey) (hlookup key)
  have hthresholds :
      (resolveThresholds q.ruleId (fun _ => o.provider q.scope) 3 q.normal.defaults).1 =
        (resolveThresholds q.ruleId (fun _ => wider.provider q.scope) 3 q.normal.defaults).1 := by
    refine resolveThresholds_congr (fun d hd number => hsame ?_) 3
    exact optionKey_not_mem_of_isThresholdName (hnames d (mem_normal_defaults.mp hd)) _
  have hothers (hid : q.ruleId ≠ ruleId) {suffix : String} (hdot : '.' ∉ suffix.toList) :
      (o.provider q.scope (optionKey q.ruleId suffix)).text? =
        (wider.provider q.scope (optionKey q.ruleId suffix)).text? :=
    hsame (optionKey_not_mem_of_ne hid hdot)
  simp only [resolve, resolveWith, hthresholds]
  cases (resolveThresholds q.ruleId (fun _ => wider.provider q.scope) 3 q.normal.defaults).1 with
  | error fault => exact .error fault
  | ok values =>
      refine .ok ⟨⟨⟨rfl, rfl⟩, ?_, ?_, ?_⟩, fun hid => ?_⟩
      · exact symbolListOf_subset (hlookup _)
      · exact symbolListOf_subset (hlookup _)
      · exact symbolListOf_subset (hlookup _)
      · rw [hothers hid (by decide), hothers hid (by decide), hothers hid (by decide)]

end Settings

end SeamLint.Settings

namespace SeamLint.Finding

/-! ## Lists that lose findings of a rule -/

/-- The finding is not lost: it belongs to another rule, or it cannot be shown. -/
def isKept (ruleId : String) (f : Finding) : Bool := f.ruleId != ruleId || !f.isShowable

/-- The first list is the second without some findings of the rule that can be shown. -/
structure Thinned (ruleId : String) (less more : List Finding) : Prop where
  sublist : less.Sublist more
  kept : less.filter (isKept ruleId) = more.filter (isKept ruleId)

section Thinned

variable {ruleId : String}

theorem thinned_refl (l : List Finding) : Thinned ruleId l l := ⟨List.Sublist.refl l, rfl⟩

theorem thinned_lost {f : Finding} (hid : f.ruleId = ruleId) (hshowable : f.isShowable = true) :
    Thinned ruleId [] [f] := by
  refine ⟨List.nil_sublist _, ?_⟩
  simp [isKept, hid, hshowable]

theorem thinned_append {less more less' more' : List Finding} (h : Thinned ruleId less more)
    (h' : Thinned ruleId less' more') : Thinned ruleId (less ++ less') (more ++ more') := by
  refine ⟨h.sublist.append h'.sublist, ?_⟩
  rw [List.filter_append, List.filter_append, h.kept, h'.kept]

theorem thinned_flatMap {α : Type} {less more : α → List Finding} {as : List α}
    (h : ∀ a ∈ as, Thinned ruleId (less a) (more a)) :
    Thinned ruleId (as.flatMap less) (as.flatMap more) := by
  induction as with
  | nil => exact thinned_refl []
  | cons a as ih =>
      obtain ⟨ha, has⟩ := List.forall_mem_cons.mp h
      exact thinned_append ha (ih has)

/-- Where ties are equal, a list with fewer findings is sorted to a list with fewer findings. -/
theorem sortFindings_sublist {less more : List Finding} (h : less.Sublist more)
    (hties : ∀ a ∈ more, ∀ b ∈ more, ties a b = true → a = b) :
    (sortFindings less).Sublist (sortFindings more) := by
  have hsubperm : (sortFindings less).Subperm (sortFindings more) :=
    (sortFindings_perm less).subperm.trans
      (h.subperm.trans (sortFindings_perm more).symm.subperm)
  obtain ⟨l, hperm, hsub⟩ := hsubperm
  have hsorted : Sorted l := (sorted_sortFindings more).sublist hsub
  have hmem {a : Finding} (ha : a ∈ l) : a ∈ more :=
    (sortFindings_perm more).mem_iff.mp (hsub.subset ha)
  -- both lists are sorted, so they are the same list
  have heq : l = sortFindings less := by
    refine hperm.eq_of_pairwise ?_ hsorted (sorted_sortFindings less)
    intro a b ha hb hab hba
    exact hties a (hmem ha) b (hmem (hperm.mem_iff.mpr hb)) (Bool.and_eq_true_iff.mpr ⟨hab, hba⟩)
  rwa [← heq]

theorem thinned_sort {less more : List Finding} (h : Thinned ruleId less more)
    (hties : ∀ a ∈ more, ∀ b ∈ more, ties a b = true → a = b) :
    Thinned ruleId (sortFindings less) (sortFindings more) := by
  refine ⟨sortFindings_sublist h.sublist hties, ?_⟩
  rw [filter_sortFindings, filter_sortFindings, h.kept]

/-- The findings of other rules are all there. -/
theorem Thinned.others {less more : List Finding} (h : Thinned ruleId less more) :
    less.filter (·.ruleId != ruleId) = more.filter (·.ruleId != ruleId) := by
  have hothers (l : List Finding) : l.filter (·.ruleId != ruleId) =
      (l.filter (isKept ruleId)).filter (·.ruleId != ruleId) := by
    rw [List.filter_filter]
    refine List.filter_congr fun f _ => ?_
    cases hid : f.ruleId != ruleId <;> simp [isKept, hid]
  rw [hothers less, hothers more, h.kept]

/-- No finding that cannot be shown is lost. -/
theorem Thinned.all_isShowable {less more : List Finding} (h : Thinned ruleId less more) :
    less.all isShowable = more.all isShowable := by
  have hkept (l : List Finding) : l.all isShowable = (l.filter (isKept ruleId)).all isShowable := by
    rw [List.all_filter]
    refine List.all_congr rfl fun f => ?_
    cases hshowable : f.isShowable <;> simp [isKept, hshowable]
  rw [hkept less, hkept more, h.kept]

end Thinned

end SeamLint.Finding

namespace SeamLint.Rule

open SeamLint.Code SeamLint.Settings

/-! ## Judgements -/

section Judgements

variable {s wider : RuleSettings} (h : SettingsWiden s wider)

include h

theorem isTypeExcluded_mono {typeName : Option String} (hs : s.isTypeExcluded typeName = true) :
    wider.isTypeExcluded typeName = true := by
  simp only [RuleSettings.isTypeExcluded, Bool.and_eq_true, List.contains_iff_mem] at hs ⊢
  exact ⟨hs.1, h.types hs.2⟩

theorem isMethodExcluded_mono {typeName : Option String} {method : String}
    (hs : s.isMethodExcluded typeName method = true) :
    wider.isMethodExcluded typeName method = true := by
  simp only [RuleSettings.isMethodExcluded, Bool.and_eq_true, List.contains_iff_mem] at hs ⊢
  exact ⟨hs.1, h.methods hs.2⟩

theorem isNamespaceExcluded_mono {name : String} (hs : s.isNamespaceExcluded name = true) :
    wider.isNamespaceExcluded name = true := by
  -- the namespaces around the name are gone through from the inside
  have haround (steps : Nat) (cs : List Char)
      (hs : RuleSettings.isListedAround s.excludedNamespaces steps cs = true) :
      RuleSettings.isListedAround wider.excludedNamespaces steps cs = true := by
    induction steps generalizing cs with
    | zero => cases hs
    | succ steps ih =>
        simp only [RuleSettings.isListedAround, Bool.and_eq_true, Bool.or_eq_true,
          List.contains_iff_mem] at hs ⊢
        refine ⟨hs.1, ?_⟩
        rcases hs.2 with hlisted | hout
        · exact Or.inl (h.namespaces hlisted)
        · right
          cases houter : Text.beforeLast? '.' cs with
          | none =>
              rw [houter] at hout
              cases hout
          | some outer =>
              rw [houter] at hout
              exact ih outer hout
  exact haround _ _ hs

theorem isExcluded_mono {x : Exposure} (hs : x.isExcluded s = true) :
    x.isExcluded wider = true := by
  simp only [Exposure.isExcluded, Bool.or_eq_true, Option.any_eq_true] at hs ⊢
  rcases hs with (htype | ⟨method, hmethod, hexcluded⟩) | ⟨name, hname, hexcluded⟩
  · exact Or.inl (Or.inl (isTypeExcluded_mono h htype))
  · exact Or.inl (Or.inr ⟨method, hmethod, isMethodExcluded_mono h hexcluded⟩)
  · exact Or.inr ⟨name, hname, isNamespaceExcluded_mono h hexcluded⟩

end Judgements

/-- A judgement becomes a finding less: it stays as it is, or it was a finding of the rule, one that
can be shown, and nothing is found any more. -/
inductive Loses (ruleId : String) :
    Except Stop (Option Finding) → Except Stop (Option Finding) → Prop
  | same (judgement : Except Stop (Option Finding)) : Loses ruleId judgement judgement
  | lost (f : Finding) : f.ruleId = ruleId → f.isShowable = true →
      Loses ruleId (.ok (some f)) (.ok none)

/-- What a rule finds at a node where it looks at something that can be excluded can be shown. -/
theorem isShowable_of_exposed {r : Rule} (hr : r ∈ catalog) {context : Context} {n : Node}
    {f : Finding} (hf : r.evaluate context n = .ok (some f)) {s : RuleSettings}
    (hexcluded : (r.exposure context.tree n).isExcluded s = true) : f.isShowable = true := by
  rcases showable_of_mem_catalog hr with rfl | rfl | hshowable
  · cases hexcluded
  · cases hexcluded
  · exact hshowable context n f hf

/-- **One judgement under settings that exclude more.** -/
theorem loses_of_settingsWiden {r : Rule} (hr : r ∈ catalog) {context : Context} {n : Node}
    {s wider : RuleSettings} (h : SettingsWiden s wider)
    (hready : r.Ready (context.under s) n) (hready' : r.Ready (context.under wider) n) :
    Loses r.id (r.evaluate (context.under s) n) (r.evaluate (context.under wider) n) := by
  have hguarded := catalog_heeds r hr context n
  by_cases heq : (r.exposure context.tree n).isExcluded s =
      (r.exposure context.tree n).isExcluded wider
  · rw [hguarded.congr s wider h.toSameButExclusions heq]
    exact .same _
  · -- what is excluded only by the wider settings was judged and is not found any more
    have hwider : (r.exposure context.tree n).isExcluded wider = true := by
      by_contra hnot
      rw [Bool.not_eq_true] at hnot
      rw [hnot, Bool.not_eq_false] at heq
      rw [isExcluded_mono h heq] at hnot
      cases hnot
    have hspared := hguarded.spares wider hwider
    obtain ⟨found, hfound, -⟩ := catalog_isTotal r hr _ n hready
    obtain ⟨found', hfound', -⟩ := catalog_isTotal r hr _ n hready'
    have hnone : found' = none := by
      cases found' with
      | none => rfl
      | some f => exact (hspared f hfound').elim
    rw [hfound, hfound', hnone]
    cases found with
    | none => exact .same _
    | some f =>
        exact .lost f (signs_of_mem_catalog hr _ _ _ hfound)
          (isShowable_of_exposed hr hfound (s := wider) hwider)

end SeamLint.Rule

namespace SeamLint.Scan

open SeamLint.Code SeamLint.Data SeamLint.Finding SeamLint.Rule SeamLint.Settings
  SeamLint.Surroundings

theorem isThresholdName_of_mem_catalog : ∀ r ∈ catalog, ∀ d ∈ r.thresholds,
    IsThresholdName d.1 := by
  unfold IsThresholdName
  decide

section Scans

variable {ruleId : String} {o wider : Options} (h : OptionsWiden ruleId o wider) (rules : List Rule)
  (tables : Tables)

include h

/-- **One judgement of two engines** whose options differ in exclusions of one rule. -/
theorem loses_of_optionsWiden {t : Tree} {r : Rule} {n : Node} (hr : r ∈ catalog)
    (ht : t.WellFormed) (hn : n ∈ t.nodes) (hkind : n.kind ∈ r.kinds) :
    Loses ruleId (r.evaluate (Engine.context ⟨rules, o.provider, tables⟩ t r) n)
      (r.evaluate (Engine.context ⟨rules, wider.provider, tables⟩ t r) n) := by
  have halike := alike_settings h (q := requestFor t r) (isThresholdName_of_mem_catalog r hr)
  rcases halike.cases_eq with ⟨s, s', hs, hs', hwiden, hsame⟩ | ⟨fault, hs, hs'⟩
  · have hready := ready_context (e := ⟨rules, o.provider, tables⟩) hs ht hn hkind
    have hready' := ready_context (e := ⟨rules, wider.provider, tables⟩) hs' ht hn hkind
    rw [context_eq_under hs] at hready ⊢
    rw [context_eq_under (e := ⟨rules, wider.provider, tables⟩) hs'] at hready' ⊢
    by_cases hid : r.id = ruleId
    · rw [← hid]
      exact loses_of_settingsWiden hr hwiden hready hready'
    · rw [hsame hid]
      exact .same _
  · have hcontext : Engine.context ⟨rules, o.provider, tables⟩ t r =
        Engine.context ⟨rules, wider.provider, tables⟩ t r := by
      show (⟨t, tables, (resolve o.provider (requestFor t r)).settings.mapError _⟩ : Context) =
        ⟨t, tables, (resolve wider.provider (requestFor t r)).settings.mapError _⟩
      rw [hs, hs']
    rw [hcontext]
    exact .same _

end Scans

/-- What came of a tree lost findings of the rule, and nothing else. -/
structure Progress.Narrows (ruleId : String) (less more : Progress) : Prop where
  findings : Thinned ruleId less.findings more.findings
  failures : less.failures = more.failures
  isStuck : less.isStuck = more.isStuck

section Visits

variable {ruleId : String} {reader reader' : Reader} {n : Node}
  (hrule : reader.rule = reader'.rule)
  (hpath : reader.context.tree.path = reader'.context.tree.path)
  (hloses : Loses ruleId (reader.rule.evaluate reader.context n)
    (reader'.rule.evaluate reader'.context n))

include hloses

theorem thinned_finding? :
    Thinned ruleId (reader'.finding? n).toList (reader.finding? n).toList := by
  unfold Reader.finding?
  generalize reader.rule.evaluate reader.context n = judgement at hloses ⊢
  generalize reader'.rule.evaluate reader'.context n = judgement' at hloses ⊢
  cases hloses with
  | same => exact thinned_refl _
  | lost f hid hshowable => exact thinned_lost hid hshowable

theorem isEndless_eq : reader'.isEndless n = reader.isEndless n := by
  unfold Reader.isEndless
  generalize reader.rule.evaluate reader.context n = judgement at hloses ⊢
  generalize reader'.rule.evaluate reader'.context n = judgement' at hloses ⊢
  cases hloses with
  | same => rfl
  | lost f hid hshowable => rfl

include hrule hpath

theorem failureAt?_eq : reader'.failureAt? n = reader.failureAt? n := by
  unfold Reader.failureAt?
  generalize reader.rule.evaluate reader.context n = judgement at hloses ⊢
  generalize reader'.rule.evaluate reader'.context n = judgement' at hloses ⊢
  cases hloses with
  | same => rw [hrule, hpath]
  | lost f hid hshowable => rfl

/-- **One visit loses at most a finding of the rule.** -/
theorem narrows_visit {less more : Progress} (h : Progress.Narrows ruleId less more) :
    Progress.Narrows ruleId (less.visit (reader', n)) (more.visit (reader, n)) := by
  have hfailed : less.hasFailed reader'.rule.id = more.hasFailed reader.rule.id := by
    simp only [Progress.hasFailed, h.failures, hrule]
  rw [visit_eq, visit_eq, hfailed, h.isStuck]
  split
  · exact h
  · refine ⟨thinned_append h.findings (thinned_finding? hloses), ?_, isEndless_eq hloses⟩
    rw [h.failures, failureAt?_eq hrule hpath hloses]

end Visits

/-! ## Trees and scans -/

/-- The visits of a tree, as rules and nodes, do not depend on where options come from. -/
theorem todo_job (rules : List Rule) (provider : Provider) (tables : Tables) (t : Tree) :
    (Engine.job ⟨rules, provider, tables⟩ t).todo =
      t.nodes.toList.flatMap fun n =>
        (rules.filter fun r => r.kinds.contains n.kind).map fun r => (r, n) := by
  simp only [Engine.job, visits, Engine.readers, List.map_flatMap, List.filter_map, List.map_map,
    Function.comp_def]

/-- **Two engines in step**: what every visit keeps is kept by whole runs. -/
theorem run_in_step {R : Progress → Progress → Prop} {rules : List Rule}
    {provider provider' : Provider} {tables : Tables} {t : Tree} (hstart : R {} {})
    (hvisit : ∀ r ∈ rules, ∀ n ∈ t.nodes, n.kind ∈ r.kinds → ∀ p p', R p p' →
      R (p.visit (Engine.reader ⟨rules, provider, tables⟩ t r, n))
        (p'.visit (Engine.reader ⟨rules, provider', tables⟩ t r, n))) :
    R (Engine.run ⟨rules, provider, tables⟩ t) (Engine.run ⟨rules, provider', tables⟩ t) := by
  rw [← outcome_job, ← outcome_job]
  unfold Job.outcome
  rw [todo_job, todo_job, List.foldl_map, List.foldl_map]
  refine List.foldl_rel hstart fun v hv p p' hp => ?_
  obtain ⟨n, hn, hv⟩ := List.mem_flatMap.mp hv
  obtain ⟨r, hr, rfl⟩ := List.mem_map.mp hv
  obtain ⟨hr, hkind⟩ := List.mem_filter.mp hr
  exact hvisit r hr n (Array.mem_toList_iff.mp hn) (List.contains_iff_mem.mp hkind) p p' hp

/-- Where trees have analyses under one engine as under the other, so have their scans reports. -/
theorem alike_report_of_analysis {e e' : Engine} {trees : List Tree}
    (h : ∀ t ∈ trees, Alike (fun _ _ => True) (e.analysis t) (e'.analysis t)) :
    Alike (fun report report' => report = e.scan trees ∧ report' = e'.scan trees) (e.report trees)
      (e'.report trees) := by
  have hsame : List.Forall₂ (fun t u => t ∈ trees ∧ t = u) trees trees :=
    List.forall₂_same.mpr fun t ht => ⟨ht, rfl⟩
  have hresults := alike_mapM (f := e.analysis) (g := e'.analysis) (S := fun _ _ => True)
    (by rintro t _ ⟨ht, rfl⟩; exact h t ht) hsame
  rcases hresults.cases_eq with ⟨ps, qs, hps, hqs, -⟩ | ⟨stop, hps, hqs⟩
  · have hreport : e.report trees = .ok (e.collect ps) := by
      unfold Engine.report
      rw [hps]
      rfl
    have hreport' : e'.report trees = .ok (e'.collect qs) := by
      unfold Engine.report
      rw [hqs]
      rfl
    rw [hreport, hreport']
    exact .ok ⟨eq_scan_of_report hreport, eq_scan_of_report hreport'⟩
  · unfold Engine.report
    rw [hps, hqs]
    exact .error stop

section Runs

variable {ruleId : String} {o wider : Options} (h : OptionsWiden ruleId o wider) {rules : List Rule}
  (hrules : ∀ r ∈ rules, r ∈ catalog) (tables : Tables)

include h hrules

theorem narrows_run {t : Tree} (ht : t.WellFormed) :
    Progress.Narrows ruleId (Engine.run ⟨rules, wider.provider, tables⟩ t)
      (Engine.run ⟨rules, o.provider, tables⟩ t) := by
  refine run_in_step ⟨thinned_refl _, rfl, rfl⟩ fun r hr n hn hkind p p' hp => ?_
  refine narrows_visit ?_ ?_ ?_ hp
  · rfl
  · rfl
  · exact loses_of_optionsWiden h rules tables (hrules r hr) ht hn hkind

/-- **One tree**, with sorted findings. -/
theorem narrows_analyze {t : Tree} (ht : t.WellFormed) :
    Progress.Narrows ruleId (Engine.analyze ⟨rules, wider.provider, tables⟩ t)
      (Engine.analyze ⟨rules, o.provider, tables⟩ t) := by
  have hrun := narrows_run h hrules tables ht
  have hcatalog {f : Finding} (hf : f ∈ (Engine.run ⟨rules, o.provider, tables⟩ t).findings) :
      FromCatalog f :=
    fromCatalog_of_mem_analyze hrules ((sortFindings_perm _).mem_iff.mpr hf)
  refine ⟨thinned_sort hrun.findings fun a ha b hb hties => ?_, hrun.failures, hrun.isStuck⟩
  exact eq_of_ties_of_fromCatalog (hcatalog ha) (hcatalog hb) hties

/-- What cannot be listed is never excluded, so both runs are listed or neither is. -/
theorem alike_analysis {t : Tree} (ht : t.WellFormed) :
    Alike (fun _ _ => True) (Engine.analysis ⟨rules, o.provider, tables⟩ t)
      (Engine.analysis ⟨rules, wider.provider, tables⟩ t) := by
  have hrun := narrows_run h hrules tables ht
  unfold Engine.analysis Progress.listed
  rw [hrun.isStuck, hrun.findings.all_isShowable]
  split
  · exact .error _
  · split
    · exact .ok trivial
    · exact .error _

end Runs

/-- The first report lists fewer findings than the second: those that are missing are findings of
the rule, and all the rest is the same. -/
structure ReportNarrows (ruleId : String) (less more : Report) : Prop where
  findings : less.findings.Sublist more.findings
  others : less.findings.filter (·.ruleId != ruleId) = more.findings.filter (·.ruleId != ruleId)
  errors : less.errors = more.errors
  trees : less.trees = more.trees
  rules : less.rules = more.rules

section Reports

variable {ruleId : String} {o wider : Options} (h : OptionsWiden ruleId o wider) {rules : List Rule}
  (hrules : ∀ r ∈ rules, r ∈ catalog) (tables : Tables) {trees : List Tree}
  (htrees : ∀ t ∈ trees, t.WellFormed)

include h hrules htrees

theorem thinned_scan :
    Thinned ruleId (Engine.scan ⟨rules, wider.provider, tables⟩ trees).findings
      (Engine.scan ⟨rules, o.provider, tables⟩ trees).findings := by
  have htrees : Thinned ruleId
      ((trees.map (Engine.analyze ⟨rules, wider.provider, tables⟩)).flatMap Progress.findings)
      ((trees.map (Engine.analyze ⟨rules, o.provider, tables⟩)).flatMap Progress.findings) := by
    rw [List.flatMap_map, List.flatMap_map]
    exact thinned_flatMap fun t ht => (narrows_analyze h hrules tables (htrees t ht)).findings
  refine thinned_sort htrees fun a ha b hb hties => ?_
  have hcatalog {f : Finding} (hf : f ∈
      (trees.map (Engine.analyze ⟨rules, o.provider, tables⟩)).flatMap Progress.findings) :
      FromCatalog f := by
    obtain ⟨p, hp, hf⟩ := List.mem_flatMap.mp hf
    obtain ⟨t, -, rfl⟩ := List.mem_map.mp hp
    exact fromCatalog_of_mem_analyze hrules hf
  exact eq_of_ties_of_fromCatalog (hcatalog ha) (hcatalog hb) hties

theorem narrows_scan :
    ReportNarrows ruleId (Engine.scan ⟨rules, wider.provider, tables⟩ trees)
      (Engine.scan ⟨rules, o.provider, tables⟩ trees) := by
  have hthinned := thinned_scan h hrules tables htrees
  refine ⟨hthinned.sublist, hthinned.others, ?_, ?_, rfl⟩
  · show (trees.map _).flatMap _ = (trees.map _).flatMap _
    rw [List.flatMap_map, List.flatMap_map]
    refine List.flatMap_congr fun t ht => ?_
    rw [(narrows_analyze h hrules tables (htrees t ht)).failures]
  · simp only [Engine.scan, Engine.collect, List.length_map]

/-- Both scans are reported, or neither is. -/
theorem alike_report :
    Alike (fun more less => ReportNarrows ruleId less more)
      (Engine.report ⟨rules, o.provider, tables⟩ trees)
      (Engine.report ⟨rules, wider.provider, tables⟩ trees) := by
  refine (alike_report_of_analysis fun t ht => ?_).mono fun more less hscans => ?_
  · exact alike_analysis h hrules tables (htrees t ht)
  · rw [hscans.1, hscans.2]
    exact narrows_scan h hrules tables htrees

end Reports

/-- **Excluding more finds less, and costs nothing but findings of the one rule.** Two sets of
option values differ in that entries were appended to exclusions of a rule, in any layers. Then they
are both refused, and for the same reason, or both make options. In that case every scan of trees
that were built or decoded, by rules of the catalogue, finds under the longer exclusions a sublist
of what it finds under the shorter ones: what is missing are findings of the rule, and the errors
are the same. Both scans can be reported, or neither can. -/
theorem wider_exclusions_narrow (ruleId : String) {shared longer sections longerSections : Value}
    (hshared : ValueWidens ruleId shared longer)
    (hsections : SectionListRel (ValueWidens ruleId) sections longerSections) {rules : List Rule}
    (hrules : ∀ r ∈ rules, r ∈ catalog) (tables : Tables) {trees : List Tree}
    (hmade : ∀ t ∈ trees, IsMade t) :
    Alike
      (fun o wider =>
        ReportNarrows ruleId (Engine.scan ⟨rules, wider.provider, tables⟩ trees)
          (Engine.scan ⟨rules, o.provider, tables⟩ trees) ∧
        Alike (fun more less => ReportNarrows ruleId less more)
          (Engine.report ⟨rules, o.provider, tables⟩ trees)
          (Engine.report ⟨rules, wider.provider, tables⟩ trees))
      (Options.ofValues shared sections) (Options.ofValues longer longerSections) := by
  have htrees : ∀ t ∈ trees, t.WellFormed := fun t ht => wellFormed_of_isMade (hmade t ht)
  refine (alike_options hshared hsections).mono fun o wider h => ?_
  exact ⟨narrows_scan h hrules tables htrees, alike_report h hrules tables htrees⟩

/-- A section that excludes types for a rule without thresholds, and nothing else. -/
theorem settings_of_single_section (r : Request) (pattern text : String)
    (hdefaults : r.defaults = [])
    (happlies : Section.appliesTo ⟨pattern, []⟩ r.scope = true) :
    (resolve (Options.provider ⟨[], [⟨pattern, [(optionKey r.ruleId "excluded_types", text)]⟩]⟩)
      r).settings = .ok { ruleId := r.ruleId, excludedTypes := symbolList text } := by
  -- the entries of a section do not decide where it applies
  have happlies : Section.appliesTo ⟨pattern, [(optionKey r.ruleId "excluded_types", text)]⟩
      r.scope = true := happlies
  have hothers : ∀ name, '.' ∉ name.toList → name ≠ "excluded_types" →
      optionKey r.ruleId "excluded_types" ≠ optionKey r.ruleId name :=
    fun name hdot hname h => hname (optionKey_inj (by decide) hdot h).2.symm
  have hmethods := hothers "excluded_methods" (by decide) (by decide)
  have hnamespaces := hothers "excluded_namespaces" (by decide) (by decide)
  have hnormal : r.normal.defaults = [] := by
    unfold Request.normal
    rw [hdefaults]
    exact List.mergeSort_nil
  simp [resolve, resolveWith, hnormal, resolveThresholds, Options.provider, Options.lookup,
    Section.get?, Entries.get?, happlies, hmethods, hnamespaces, Answer.text?, symbolListOf,
    Except.map]

/-- A section that already excludes a type and is told to exclude another one, in a text that ends
with a separator and a blank: the static field of the second type is found, and is not found any
more. -/
theorem wider_exclusions_narrow_field :
    let sections (text : String) : Value :=
      .list [.object [field "files" (.text "*.cs"),
        field "options" (.object [field (optionKey "SEAM013" "excluded_types") (.text text)])]]
    IsMade cacheTree ∧ ∃ o wider f,
      Options.ofValues .null (sections "T:App.Orders; ") = .ok o ∧
      Options.ofValues .null (sections "T:App.Orders; T:App.Billing") = .ok wider ∧
      (Engine.scan ⟨[staticMutableField], o.provider, {}⟩ [cacheTree]).findings = [f] ∧
      (Engine.scan ⟨[staticMutableField], wider.provider, {}⟩ [cacheTree]).findings = [] ∧
      ReportNarrows "SEAM013" (Engine.scan ⟨[staticMutableField], wider.provider, {}⟩ [cacheTree])
        (Engine.scan ⟨[staticMutableField], o.provider, {}⟩ [cacheTree]) := by
  intro sections
  have hlengthened : Lengthened "T:App.Orders; " "T:App.Orders; T:App.Billing" :=
    ⟨"T:App.Billing", rfl, Or.inl ⟨"T:App.Orders;".toList, [' '], rfl,
      List.forall_mem_singleton.mpr rfl, Or.inr ⟨"T:App.Orders".toList, ';', rfl, rfl⟩⟩⟩
  have hsections : SectionListRel (ValueWidens "SEAM013") (sections "T:App.Orders; ")
      (sections "T:App.Orders; T:App.Billing") := by
    refine Or.inr ⟨_, _, rfl, rfl, .cons (Or.inr ⟨_, _, rfl, rfl, ?_⟩) .nil⟩
    refine .cons (Or.inl rfl) (.cons (Or.inr ⟨_, _, rfl, rfl, ?_⟩) .nil)
    refine Or.inr ⟨_, _, rfl, rfl, .cons (Or.inr ?_) .nil⟩
    exact ⟨_, List.mem_cons_self, _, _, rfl, rfl, hlengthened⟩
  have hrules := List.forall_mem_singleton.mpr staticMutableField_mem_catalog
  let options (text : String) : Options :=
    ⟨[], [⟨"*.cs", [(optionKey "SEAM013" "excluded_types", text)]⟩]⟩
  have hoptions : ∀ text, Options.ofValues .null (sections text) = .ok (options text) :=
    fun _ => rfl
  have halike := wider_exclusions_narrow "SEAM013" (Or.inl (Eq.refl Value.null)) hsections hrules {}
    (List.forall_mem_singleton.mpr isMade_cacheTree)
  rw [hoptions, hoptions] at halike
  let settings (text : String) : RuleSettings :=
    { ruleId := "SEAM013", excludedTypes := symbolList text }
  have happlies : Section.appliesTo ⟨"*.cs", []⟩ "src/Billing.cs" = true := by decide +kernel
  have hsettings : ∀ text, (resolve (options text).provider
      (requestFor cacheTree staticMutableField)).settings = .ok (settings text) :=
    fun text =>
      settings_of_single_section (requestFor cacheTree staticMutableField) "*.cs" text rfl happlies
  have hfound : ∃ f, staticMutableField.evaluate
      ⟨cacheTree, {}, .ok (settings "T:App.Orders; ")⟩ cacheVariable = .ok (some f) := ⟨_, rfl⟩
  have hlost : staticMutableField.evaluate
      ⟨cacheTree, {}, .ok (settings "T:App.Orders; T:App.Billing")⟩ cacheVariable = .ok none := rfl
  obtain ⟨f, hf⟩ := hfound
  cases halike with
  | ok hnarrows =>
    exact ⟨isMade_cacheTree, options _, options _, f, hoptions _, hoptions _,
      scan_cacheTree (hsettings _) hf, scan_cacheTree (hsettings _) hlost, hnarrows.1⟩

end SeamLint.Scan
