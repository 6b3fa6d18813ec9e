import SeamLint.Proofs.ThresholdText
import SeamLint.Proofs.WiderExclusions

set_option autoImplicit false

/-! # Raising a threshold only filters

Two rules of the catalogue measure the nodes that they are shown and find those above a threshold
(`Gauge`). Whether a node is measured at all, and what it measures, has nothing to do with the
settings (`exists_candidate`). So under a higher threshold a rule flags those of the nodes that it
flagged under the lower one that are above the higher one.

The thresholds come from option values that are the same but for the fields under one key
(`OptionsAgree`). Under any other key the same is looked up (`lookup_eq_of_ne`), so every other rule
has the same settings, and two runs that are followed in step differ in nothing but the findings of
the one rule (`sameOthers_run`).
-/

namespace SeamLint.Settings

open SeamLint.Data SeamLint.Text

/-! ## Options that differ under one key -/

/-- The fields are the same, or both are fields under the key, of which either both or neither can
be written. -/
def FieldAgrees (key : String) (a b : Key × Value) : Prop :=
  a = b ∨ a.1 = b.1 ∧ a.1.shown = key ∧ isWritableField a = isWritableField b

/-- The values are the same, or both are options that differ under the key at most. -/
def OptionsAgree (key : String) (v w : Value) : Prop :=
  v = w ∨ ∃ fields fields', v = .object fields ∧ w = .object fields' ∧
    List.Forall₂ (FieldAgrees key) fields fields'

theorem findSome?_reverse_congr {α β : Type} {f : α → Option β} {as bs : List α}
    (h : List.Forall₂ (fun a b => f a = f b) as bs) :
    as.reverse.findSome? f = bs.reverse.findSome? f := by
  have hmap : as.map f = bs.map f := by
    induction h with
    | nil => rfl
    | cons hab _ ih => rw [List.map_cons, List.map_cons, hab, ih]
  have hid (l : List α) : l.reverse.findSome? f = (l.map f).reverse.findSome? id := by
    rw [← List.map_reverse, List.findSome?_map, Function.id_comp]
  rw [hid as, hid bs, hmap]

section Agree

variable {key other : String} (hother : other ≠ key)

include hother

theorem valueUnder?_eq_of_ne {v w : Value} (h : OptionsAgree key v w) :
    valueUnder? other v = valueUnder? other w := by
  rcases h with rfl | ⟨fields, fields', rfl, rfl, h⟩
  · rfl
  · show boundValue? other fields = boundValue? other fields'
    rw [boundValue?_eq, boundValue?_eq]
    refine findSome?_reverse_congr (h.imp fun a b hab => ?_)
    rcases hab with rfl | ⟨hkey, hshown, -⟩
    · rfl
    · have hne : a.1.shown ≠ other := fun heq => hother (heq.symm.trans hshown)
      rw [fieldValue?, fieldValue?, ← hkey, if_neg (fun h => hne h.1), if_neg (fun h => hne h.1)]

theorem sectionValue?_eq_of_ne (scope : String) {v w : Value}
    (h : SectionRel (OptionsAgree key) v w) :
    sectionValue? scope other v = sectionValue? scope other w := by
  rcases h with rfl | ⟨fields, fields', rfl, rfl, h⟩
  · rfl
  · have hoptions : (Fields.get? fields "options").bind (valueUnder? other) =
        (Fields.get? fields' "options").bind (valueUnder? other) := by
      have hrel := get?_of_sectionFields h "options"
      revert hrel
      generalize Fields.get? fields "options" = found
      generalize Fields.get? fields' "options" = found'
      intro hrel
      cases hrel with
      | none => rfl
      | some hvalue =>
          rcases hvalue with rfl | ⟨-, hagree⟩
          · rfl
          · exact valueUnder?_eq_of_ne hother hagree
    have hpattern : sectionPattern (.object fields) = sectionPattern (.object fields') :=
      congrArg (fun found => (found.map Value.shown).getD defaultPattern)
        (files_of_sectionFields h)
    rw [sectionValue?, sectionValue?, hpattern]
    split
    · exact hoptions
    · rfl

/-- Under another key the same value counts. -/
theorem effectiveValue?_eq_of_ne (scope : String) {shared shared' sections sections' : Value}
    (hshared : OptionsAgree key shared shared')
    (hsections : SectionListRel (OptionsAgree key) sections sections') :
    effectiveValue? shared sections scope other =
      effectiveValue? shared' sections' scope other := by
  have hparts : (sectionsOf sections).reverse.findSome? (sectionValue? scope other) =
      (sectionsOf sections').reverse.findSome? (sectionValue? scope other) := by
    rcases hsections with rfl | ⟨parts, parts', rfl, rfl, h⟩
    · rfl
    · exact findSome?_reverse_congr (h.imp fun a b hab => sectionValue?_eq_of_ne hother scope hab)
  rw [effectiveValue?, effectiveValue?, hparts, valueUnder?_eq_of_ne hother hshared]

theorem lookup_eq_of_ne {shared shared' sections sections' : Value} {o o' : Options}
    (hshared : OptionsAgree key shared shared')
    (hsections : SectionListRel (OptionsAgree key) sections sections')
    (ho : Options.ofValues shared sections = .ok o)
    (ho' : Options.ofValues shared' sections' = .ok o') (scope : String) :
    o.lookup scope other = o'.lookup scope other := by
  rw [lookup_ofValues ho, lookup_ofValues ho',
    effectiveValue?_eq_of_ne hother scope hshared hsections]

end Agree

theorem all_isWritableField_eq {key : String} {fields fields' : Fields}
    (h : List.Forall₂ (FieldAgrees key) fields fields') :
    fields.all isWritableField = fields'.all isWritableField := by
  induction h with
  | nil => rfl
  | cons hab _ ih =>
      rw [List.all_cons, List.all_cons, ih]
      rcases hab with rfl | ⟨-, -, heq⟩
      · rfl
      · rw [heq]

/-- **Values that differ under one key are refused for the same reason**, or both make options. -/
theorem alike_ofValues {key : String} {shared shared' sections sections' : Value}
    (hshared : OptionsAgree key shared shared')
    (hsections : SectionListRel (OptionsAgree key) sections sections') :
    Alike (fun _ _ => True) (Options.ofValues shared sections)
      (Options.ofValues shared' sections') := by
  have hentries (v w : Value) (h : OptionsAgree key v w) :
      Alike (fun _ _ => True) (entriesOfValue v) (entriesOfValue w) := by
    rcases h with rfl | ⟨fields, fields', rfl, rfl, h⟩
    · exact alike_of_eq (fun _ => trivial) rfl
    · rw [entriesOfValue_object, entriesOfValue_object, entriesOf_eq, entriesOf_eq,
        all_isWritableField_eq h]
      split
      · exact .ok trivial
      · exact .error _
  exact (alike_layers (fun _ => trivial) hentries hshared hsections).mono fun _ _ _ => trivial

/-- **A rule without the key has the same settings.** -/
theorem settings_eq_of_ne {o o' : Options} {key : String}
    (h : ∀ scope other, other ≠ key → o.lookup scope other = o'.lookup scope other) {q : Request}
    (hnames : ∀ d ∈ q.defaults, '.' ∉ d.1.toList)
    (hkey : ∀ suffix, '.' ∉ suffix.toList → optionKey q.ruleId suffix ≠ key) :
    (resolve o.provider q).settings = (resolve o'.provider q).settings := by
  have hsame (suffix : String) (hdot : '.' ∉ suffix.toList) :
      (o.provider q.scope (optionKey q.ruleId suffix)).text? =
        (o'.provider q.scope (optionKey q.ruleId suffix)).text? := by
    rw [text?_provider, text?_provider, h _ _ (hkey suffix hdot)]
  have hthresholds :
      (resolveThresholds q.ruleId (fun _ => o.provider q.scope) 3 q.normal.defaults).1 =
        (resolveThresholds q.ruleId (fun _ => o'.provider q.scope) 3 q.normal.defaults).1 :=
    resolveThresholds_congr (fun d hd _ => hsame d.1 (hnames d (mem_normal_defaults.mp hd))) 3
  have htypes := hsame "excluded_types" (by decide)
  have hmethods := hsame "excluded_methods" (by decide)
  have hnamespaces := hsame "excluded_namespaces" (by decide)
  simp only [resolve, resolveWith, hthresholds, htypes, hmethods, hnamespaces]

end SeamLint.Settings

namespace SeamLint.Rule

open SeamLint.Code SeamLint.Finding SeamLint.Settings

/-! ## Rules that measure -/

/-- A rule that measures nodes: which of its thresholds they are held against, how they are
measured, and what the rule says behind the name of a node that it finds. -/
structure Gauge where
  rule : Rule
  threshold : String
  size : Tree → Node → Except (Code.Stop Code.Fault) Int
  numbers : Int → Int → List Argument

/-- Private methods are measured by the lines that they span. -/
def lineGauge : Gauge where
  rule := largePrivateMethod
  threshold := lineThreshold
  size _ n := .ok n.span.lineCount
  numbers size _ := [.number size]

/-- Code is measured by its complexity. -/
def complexityGauge : Gauge where
  rule := highComplexity
  threshold := complexityThreshold
  size t n := (Measure.complexityAt t n).map Int.ofNat
  numbers size threshold := [.number size, .number threshold]

/-- The rules of the catalogue that measure. -/
def gauges : List Gauge := [lineGauge, complexityGauge]

/-- A node that a rule finds if it is above the threshold: its measure, and what is found under a
threshold. -/
structure Candidate where
  size : Int
  found : Int → Finding

/-- The judgement on a candidate. -/
def Candidate.judge (c : Candidate) (threshold : Int) : Option Finding :=
  if c.size ≤ threshold then none else some (c.found threshold)

/-- The rule takes the node for a candidate, or leaves it alone, whatever its settings are: they
decide by the threshold only. -/
structure Gauge.Weighs (g : Gauge) (context : Context) (n : Node) (candidate : Option Candidate) :
    Prop where
  size : ∀ c ∈ candidate, g.size context.tree n = .ok c.size
  arguments : ∀ c ∈ candidate, ∃ text, ∀ threshold,
    (c.found threshold).arguments = .text text :: g.numbers c.size threshold
  evaluate : ∀ (s : RuleSettings) (threshold : Int), s.threshold g.threshold = .ok threshold →
    g.rule.evaluate (context.under s) n = .ok (candidate.bind (·.judge threshold))

theorem weighs_none {g : Gauge} {context : Context} {n : Node}
    (h : ∀ s, g.rule.evaluate (context.under s) n = .ok none) : g.Weighs context n none :=
  ⟨fun _ hc => (nomatch hc), fun _ hc => (nomatch hc), fun s _ _ => h s⟩

section Weighs

variable {context : Context} {n : Node} (hwf : context.tree.WellFormed)
  (hn : n ∈ context.tree.nodes)

include hwf hn

/-- A private method with a block is a candidate, and nothing else is. -/
theorem exists_weighs_line : ∃ candidate, lineGauge.Weighs context n candidate := by
  obtain ⟨body, hbody, -⟩ := hwf.gives_body hn
  by_cases hprivate : isPrivate n.toFacts = true
  · cases body with
    | none =>
        refine ⟨none, weighs_none fun s => ?_⟩
        simp only [lineGauge, largePrivateMethod, hprivate, tree_under, hbody]
        rfl
    | some body =>
        by_cases hblock : body.kind = .block
        · refine ⟨some ⟨n.span.lineCount, fun _ => largePrivateMethodDescriptor.found context
            n.identifierSpan [textArgument (n.name.getD ""), .number n.span.lineCount]⟩,
            ?_, ?_, fun s threshold hs => ?_⟩
          · rintro c ⟨⟩
            rfl
          · rintro c ⟨⟩
            exact ⟨n.name.getD "", fun _ => rfl⟩
          · simp only [lineGauge, largePrivateMethod, hprivate, tree_under, settings_under, hbody]
            show (if body.kind ≠ .block then _ else _) = _
            rw [if_neg (not_not_intro hblock)]
            show ((s.threshold lineThreshold : Except Stop Int) >>= _) = _
            rw [show s.threshold lineThreshold = .ok threshold from hs]
            show (if n.span.lineCount ≤ threshold then .ok none else .ok (some _)) =
              Except.ok (if n.span.lineCount ≤ threshold then none else some _)
            split <;> rfl
        · refine ⟨none, weighs_none fun s => ?_⟩
          simp only [lineGauge, largePrivateMethod, hprivate, tree_under, hbody]
          exact if_pos hblock
  · refine ⟨none, weighs_none fun s => ?_⟩
    simp only [lineGauge, largePrivateMethod, hprivate]
    rfl

/-- Code with a body that is to be scored is a candidate, and nothing else is. -/
theorem exists_weighs_complexity (hkind : n.kind ∈ highComplexity.kinds) :
    ∃ candidate, complexityGauge.Weighs context n candidate := by
  have hunit : n.kind.isCodeUnit = true := by
    have hkinds : ∀ kind ∈ highComplexity.kinds, kind.isCodeUnit = true := by decide
    exact hkinds n.kind hkind
  obtain ⟨body, hbody, -⟩ := hwf.gives_body hn
  obtain ⟨score, hscore, -⟩ := Measure.gives_complexityAt hwf hn hunit
  obtain ⟨name, hname, -⟩ := Measure.gives_displayName hwf hn
  cases body with
  | none =>
      refine ⟨none, weighs_none fun s => ?_⟩
      simp only [complexityGauge, highComplexity, tree_under, hbody]
      rfl
  | some body =>
      by_cases hscored : isScored n.toFacts = true
      · refine ⟨some ⟨score, fun threshold => highComplexityDescriptor.found context
          n.identifierSpan [textArgument name, .number score, .number threshold]⟩,
          ?_, ?_, fun s threshold hs => ?_⟩
        · rintro c ⟨⟩
          show (Measure.complexityAt context.tree n).map Int.ofNat = _
          rw [hscore]
          rfl
        · rintro c ⟨⟩
          exact ⟨name, fun _ => rfl⟩
        · simp only [complexityGauge, highComplexity, hscored, tree_under, settings_under, hbody]
          show ((s.threshold complexityThreshold : Except Stop Int) >>= _) = _
          rw [show s.threshold complexityThreshold = .ok threshold from hs]
          show ((Measure.complexityAt context.tree n : Except Stop Nat) >>= _) = _
          rw [hscore]
          show (if (score : Int) ≤ threshold then .ok none else
              (Measure.displayName context.tree n : Except Stop String) >>= _) =
            Except.ok (if (score : Int) ≤ threshold then none else some _)
          rw [hname]
          split <;> rfl
      · refine ⟨none, weighs_none fun s => ?_⟩
        simp only [complexityGauge, highComplexity, tree_under, hbody]
        exact if_pos (by simpa using hscored)

/-- **Settings decide by the threshold only.** -/
theorem exists_candidate {g : Gauge} (hg : g ∈ gauges) (hkind : n.kind ∈ g.rule.kinds) :
    ∃ candidate, g.Weighs context n candidate := by
  simp only [gauges, List.mem_cons, List.not_mem_nil, or_false] at hg
  rcases hg with rfl | rfl
  · exact exists_weighs_line hwf hn
  · exact exists_weighs_complexity hwf hn hkind

end Weighs

/-- What a rule that measures has found can be shown if the measure can be written. -/
theorem isShowable_iff_isWritable {g : Gauge} (hg : g ∈ gauges) {f : Finding} {text : String}
    {size threshold : Int} (hthreshold : Number.isWritable threshold = true)
    (h : f.arguments = .text text :: g.numbers size threshold) :
    f.isShowable = true ↔ Number.isWritable size = true := by
  simp only [gauges, List.mem_cons, List.not_mem_nil, or_false] at hg
  rcases hg with rfl | rfl
  · simp [Finding.isShowable, h, lineGauge, Argument.isShowable]
  · simp [Finding.isShowable, h, complexityGauge, Argument.isShowable, hthreshold]

end SeamLint.Rule

namespace SeamLint.Scan

open SeamLint.Code SeamLint.Data SeamLint.Finding SeamLint.Rule SeamLint.Settings
  SeamLint.Surroundings

/-! ## The nodes that a rule flags -/

/-- The nodes of a tree that a rule flags, in order, with what it finds there. -/
def Engine.flagged (e : Engine) (t : Tree) (r : Rule) : List (Node × Finding) :=
  ((e.reader t r).shown t.nodes.toList).filterMap fun n =>
    ((e.reader t r).finding? n).map fun f => (n, f)

theorem finding?_eq_some_iff {reader : Reader} {n : Node} {f : Finding} :
    reader.finding? n = some f ↔ reader.rule.evaluate reader.context n = .ok (some f) := by
  unfold Reader.finding?
  cases reader.rule.evaluate reader.context n <;> simp

theorem mem_flagged_iff {e : Engine} {t : Tree} {r : Rule} {n : Node} {f : Finding} :
    (n, f) ∈ e.flagged t r ↔
      n ∈ t.nodes ∧ n.kind ∈ r.kinds ∧ r.evaluate (e.context t r) n = .ok (some f) := by
  have hfound : (e.reader t r).finding? n = some f ↔
      r.evaluate (e.context t r) n = .ok (some f) := finding?_eq_some_iff
  have hshown : n ∈ (e.reader t r).shown t.nodes.toList ↔ n ∈ t.nodes ∧ n.kind ∈ r.kinds := by
    rw [Reader.shown, List.mem_filter, Array.mem_toList_iff, List.contains_iff_mem]
    rfl
  rw [Engine.flagged, List.mem_filterMap, ← and_assoc, ← hshown, ← hfound]
  constructor
  · rintro ⟨m, hm, hpair⟩
    obtain ⟨g, hg, heq⟩ := Option.map_eq_some_iff.mp hpair
    cases heq
    exact ⟨hm, hg⟩
  · rintro ⟨hn, hf⟩
    exact ⟨n, hn, Option.map_eq_some_iff.mpr ⟨f, hf, rfl⟩⟩

/-- What a rule finds that judges every node that it is shown. -/
theorem findings_eq_flagged {e : Engine} {t : Tree} {r : Rule}
    (h : ∀ n ∈ t.nodes, n.kind ∈ r.kinds → ∃ found, r.evaluate (e.context t r) n = .ok found) :
    (e.reader t r).findings t.nodes.toList = (e.flagged t r).map Prod.snd := by
  have hall : ((e.reader t r).shown t.nodes.toList).takeWhile
      (fun n => ((e.reader t r).failureAt? n).isNone) = (e.reader t r).shown t.nodes.toList := by
    refine List.takeWhile_eq_self_iff.mpr fun n hn => ?_
    obtain ⟨hn, hkind⟩ := List.mem_filter.mp hn
    obtain ⟨found, hfound⟩ := h n (Array.mem_toList_iff.mp hn) (List.contains_iff_mem.mp hkind)
    have hjudged : (e.reader t r).rule.evaluate (e.reader t r).context n = .ok found := hfound
    rw [Reader.failureAt?, hjudged]
    rfl
  rw [Reader.findings, Reader.findingsIn, hall, Engine.flagged, List.map_filterMap]
  congr 1
  funext n
  rw [Option.map_map]
  exact Option.map_id'.symm

/-- The rule lists exactly what it finds at the nodes that it flags: each is above the threshold,
and what is found there tells its measure and, if the rule does so at all, the threshold. -/
structure Engine.FlagsAbove (e : Engine) (g : Gauge) (t : Tree) (threshold : Int) : Prop where
  findings : (e.analyze t).findings.filter (·.ruleId == g.rule.id) =
    sortFindings ((e.flagged t g.rule).map Prod.snd)
  measured : ∀ n f, (n, f) ∈ e.flagged t g.rule → ∃ size text, g.size t n = .ok size ∧
    threshold < size ∧ f.arguments = .text text :: g.numbers size threshold

section Flagged

variable {g : Gauge} {e : Engine} {t : Tree} {n : Node} {threshold : Int}
  (hthreshold : (e.context t g.rule).HasThreshold g.threshold threshold)

include hthreshold

theorem evaluate_of_weighs {candidate : Option Candidate}
    (h : g.Weighs (e.context t g.rule) n candidate) :
    g.rule.evaluate (e.context t g.rule) n = .ok (candidate.bind (·.judge threshold)) := by
  obtain ⟨s, hs, hvalue⟩ := hthreshold
  have hunder : e.context t g.rule = (e.context t g.rule).under s := by
    unfold Context.under
    rw [← hs]
  exact (congrArg (g.rule.evaluate · n) hunder).trans (h.evaluate s threshold hvalue)

/-- A candidate is flagged if it is above the threshold. -/
theorem mem_flagged_of_weighs {candidate : Option Candidate} {f : Finding} (hn : n ∈ t.nodes)
    (hkind : n.kind ∈ g.rule.kinds) (h : g.Weighs (e.context t g.rule) n candidate) :
    (n, f) ∈ e.flagged t g.rule ↔ ∃ c ∈ candidate, threshold < c.size ∧ f = c.found threshold := by
  rw [mem_flagged_iff, evaluate_of_weighs hthreshold h]
  simp only [hn, hkind, true_and, Except.ok.injEq, Option.bind_eq_some_iff, Option.mem_def,
    Candidate.judge]
  refine exists_congr fun c => and_congr_right fun _ => ?_
  split
  · next hle => simp [Int.not_lt.mpr hle]
  · next hle => simp [Int.not_le.mp hle, eq_comm]

theorem flagsAbove (hg : g ∈ gauges) (ht : t.WellFormed) (hrules : e.rules.Sublist catalog)
    (hrule : g.rule ∈ e.rules) : e.FlagsAbove g t threshold := by
  have hwf : (e.context t g.rule).tree.WellFormed := ht
  have hweighs {n : Node} (hn : n ∈ (e.context t g.rule).tree.nodes)
      (hkind : n.kind ∈ g.rule.kinds) :
      ∃ candidate, g.Weighs (e.context t g.rule) n candidate := exists_candidate hwf hn hg hkind
  refine ⟨?_, fun n f hf => ?_⟩
  · have honly := only_run_of_mem (catalog_ids_nodup.sublist (hrules.map Rule.id))
      (fun r hr => signs_of_mem_catalog (hrules.subset hr))
      (ends_of_wellFormed (fun r hr => hrules.subset hr) ht) hrule
    have hfindings : (e.run t).findings.filter (·.ruleId == g.rule.id) =
        (e.reader t g.rule).findings t.nodes.toList := congrArg Progress.findings honly
    show (sortFindings (e.run t).findings).filter _ = _
    rw [filter_sortFindings, hfindings, findings_eq_flagged]
    intro n hn hkind
    obtain ⟨candidate, h⟩ := hweighs hn hkind
    exact ⟨_, evaluate_of_weighs hthreshold h⟩
  · obtain ⟨hn, hkind, -⟩ := mem_flagged_iff.mp hf
    obtain ⟨candidate, h⟩ := hweighs hn hkind
    obtain ⟨c, hc, hlt, rfl⟩ := (mem_flagged_of_weighs hthreshold hn hkind h).mp hf
    obtain ⟨text, harguments⟩ := h.arguments c hc
    exact ⟨c.size, text, h.size c hc, hlt, harguments threshold⟩

end Flagged

/-! ## Other rules -/

/-- What came of a tree is the same but for the findings of a rule. -/
structure Progress.SameOthers (ruleId : String) (p p' : Progress) : Prop where
  findings : p.findings.filter (·.ruleId != ruleId) = p'.findings.filter (·.ruleId != ruleId)
  failures : p.failures = p'.failures
  isStuck : p.isStuck = p'.isStuck

section Visits

variable {ruleId : String} {p p' : Progress} (hp : Progress.SameOthers ruleId p p')

include hp

/-- A visit of a rule with the same settings. -/
theorem sameOthers_visit (reader : Reader) (n : Node) :
    Progress.SameOthers ruleId (p.visit (reader, n)) (p'.visit (reader, n)) := by
  have hfailed : p.hasFailed reader.rule.id = p'.hasFailed reader.rule.id := by
    simp only [Progress.hasFailed, hp.failures]
  rw [visit_eq, visit_eq, hfailed, hp.isStuck]
  split
  · exact hp
  · refine ⟨?_, ?_, rfl⟩
    · rw [List.filter_append, List.filter_append, hp.findings]
    · rw [hp.failures]

/-- A visit of the rule itself, under settings under which it does not fail. -/
theorem sameOthers_visit_own {r : Rule} {context context' : Context} {n : Node}
    (hid : r.id = ruleId) (hsigns : SignsFindings r)
    (hfound : ∃ found, r.evaluate context n = .ok found)
    (hfound' : ∃ found, r.evaluate context' n = .ok found) :
    Progress.SameOthers ruleId (p.visit (⟨r, context⟩, n)) (p'.visit (⟨r, context'⟩, n)) := by
  -- apart from findings of its own, such a visit leaves no trace
  have hown {context : Context} (hfound : ∃ found, r.evaluate context n = .ok found)
      (p : Progress) : Progress.SameOthers ruleId (p.visit (⟨r, context⟩, n)) p := by
    obtain ⟨found, hfound⟩ := hfound
    have hfailure : Reader.failureAt? ⟨r, context⟩ n = none := by
      unfold Reader.failureAt?
      rw [hfound]
    have hends : Reader.isEndless ⟨r, context⟩ n = false := by
      unfold Reader.isEndless
      rw [hfound]
    have hfinding : (Reader.finding? ⟨r, context⟩ n).toList.filter (·.ruleId != ruleId) = [] := by
      refine List.filter_eq_nil_iff.mpr fun f hf => ?_
      rw [Reader.ruleId_of_finding? hsigns (Option.mem_toList.mp hf)]
      simpa using hid
    rw [visit_eq]
    split
    · exact ⟨rfl, rfl, rfl⟩
    · next hgoes =>
        refine ⟨?_, ?_, ?_⟩
        · rw [List.filter_append, hfinding, List.append_nil]
        · rw [hfailure]
          exact List.append_nil _
        · rw [Bool.or_eq_true, not_or, Bool.not_eq_true] at hgoes
          rw [hends, hgoes.1]
  have hleft := hown hfound p
  have hright := hown hfound' p'
  exact ⟨hleft.findings.trans (hp.findings.trans hright.findings.symm),
    hleft.failures.trans (hp.failures.trans hright.failures.symm),
    hleft.isStuck.trans (hp.isStuck.trans hright.isStuck.symm)⟩

end Visits

/-- The thresholds of rules that measure are the only ones of their rules, and have no dots. -/
theorem thresholds_of_gauges : ∀ g ∈ gauges, '.' ∉ g.threshold.toList ∧
    (∃ d ∈ g.rule.thresholds, d.1 = g.threshold) ∧
      ∀ d ∈ g.rule.thresholds, d.1 = g.threshold := by
  decide

theorem rule_mem_catalog {g : Gauge} (hg : g ∈ gauges) : g.rule ∈ catalog := by
  simp only [gauges, List.mem_cons, List.not_mem_nil, or_false] at hg
  rcases hg with rfl | rfl <;> simp [lineGauge, complexityGauge, catalog]

/-- A number among the options is the threshold that nodes are held against. -/
theorem hasThreshold_of_int {g : Gauge} (hg : g ∈ gauges) (rules : List Rule) (tables : Tables)
    {t : Tree} {shared sections : Value} {o : Options} {threshold : Int}
    (ho : Options.ofValues shared sections = .ok o)
    (hcounts : Counts shared (sectionsOf sections) t.path (optionKey g.rule.id g.threshold)
      (.int threshold)) (hwritable : Number.isWritable threshold = true) :
    (Engine.context ⟨rules, o.provider, tables⟩ t g.rule).HasThreshold g.threshold threshold := by
  obtain ⟨-, ⟨d, hd, hname⟩, honly⟩ := thresholds_of_gauges g hg
  -- there is no other threshold that could keep the rule from its settings
  have hothers : Request.IsReadable { requestFor t g.rule with
      defaults := g.rule.thresholds.filter (·.1 != g.threshold) } o.provider := by
    intro d hd
    obtain ⟨hmem, hne⟩ := List.mem_filter.mp hd
    exact absurd (honly d hmem) (by simpa using hne)
  have hreadable : (requestFor t g.rule).IsReadable o.provider :=
    isReadable_of_int ho hcounts hwritable hothers
  obtain ⟨s, hs⟩ := hreadable.exists_settings
  have hmem : ∃ default, (g.threshold, default) ∈ (requestFor t g.rule).defaults := by
    refine ⟨d.2, ?_⟩
    rw [← hname]
    exact hd
  refine ⟨s, ?_, threshold_of_int (r := requestFor t g.rule) ho hcounts hwritable hs hmem⟩
  show (resolve o.provider (requestFor t g.rule)).settings.mapError _ = .ok s
  rw [hs]
  rfl

section Raised

variable {g : Gauge} (hg : g ∈ gauges) {rules : List Rule} (hrules : rules.Sublist catalog)
  {tables : Tables} {t : Tree} (ht : t.WellFormed) {o o' : Options} {low high : Int}
  (hlookup : ∀ scope other, other ≠ optionKey g.rule.id g.threshold →
    o.lookup scope other = o'.lookup scope other)
  (hlow : (Engine.context ⟨rules, o.provider, tables⟩ t g.rule).HasThreshold g.threshold low)
  (hhigh : (Engine.context ⟨rules, o'.provider, tables⟩ t g.rule).HasThreshold g.threshold high)

include hg

include hlookup in
/-- Every other rule is told the same. -/
theorem context_eq_of_ne {r : Rule} (hr : r ∈ catalog) (hid : r.id ≠ g.rule.id) :
    Engine.context ⟨rules, o.provider, tables⟩ t r =
      Engine.context ⟨rules, o'.provider, tables⟩ t r := by
  have hdot := (thresholds_of_gauges g hg).1
  have hsettings : (resolve o.provider (requestFor t r)).settings =
      (resolve o'.provider (requestFor t r)).settings := by
    refine settings_eq_of_ne hlookup (fun d hd => ?_) fun suffix hsuffix heq => ?_
    · exact (isThresholdName_of_mem_catalog r hr d hd).1
    · exact hid (optionKey_inj hsuffix hdot heq).1
  show (⟨t, tables, (resolve o.provider (requestFor t r)).settings.mapError _⟩ : Context) =
    ⟨t, tables, (resolve o'.provider (requestFor t r)).settings.mapError _⟩
  rw [hsettings]

include ht

/-- The rule has the same candidates under both. -/
theorem exists_weighs_both {n : Node} (hn : n ∈ t.nodes) (hkind : n.kind ∈ g.rule.kinds) :
    ∃ candidate, g.Weighs (Engine.context ⟨rules, o.provider, tables⟩ t g.rule) n candidate ∧
      g.Weighs (Engine.context ⟨rules, o'.provider, tables⟩ t g.rule) n candidate := by
  have hwf : (Engine.context ⟨rules, o.provider, tables⟩ t g.rule).tree.WellFormed := ht
  obtain ⟨candidate, h⟩ := exists_candidate hwf hn hg hkind
  exact ⟨candidate, h, h.size, h.arguments, h.evaluate⟩

include hlow hhigh

include hrules hlookup in
/-- **Runs under two thresholds** differ in nothing but the findings of the one rule. -/
theorem sameOthers_run :
    Progress.SameOthers g.rule.id (Engine.run ⟨rules, o.provider, tables⟩ t)
      (Engine.run ⟨rules, o'.provider, tables⟩ t) := by
  refine run_in_step ⟨rfl, rfl, rfl⟩ fun r hr n hn hkind p p' hp => ?_
  have hcatalog : r ∈ catalog := hrules.subset hr
  -- the rule itself does not fail under either threshold, and any other is told the same
  by_cases hid : r.id = g.rule.id
  · obtain rfl := eq_of_id_eq hcatalog (rule_mem_catalog hg) hid
    obtain ⟨candidate, h, h'⟩ := exists_weighs_both hg ht hn hkind
    exact sameOthers_visit_own hp hid (signs_of_mem_catalog hcatalog)
      ⟨_, evaluate_of_weighs hlow h⟩ ⟨_, evaluate_of_weighs hhigh h'⟩
  · rw [Engine.reader, Engine.reader, context_eq_of_ne hg hlookup hcatalog hid]
    exact sameOthers_visit hp _ n

/-- **The nodes above the higher threshold** are those that were flagged and are above it. -/
theorem flagged_iff_of_le (hle : low ≤ high) (n : Node) :
    n ∈ (Engine.flagged ⟨rules, o'.provider, tables⟩ t g.rule).map Prod.fst ↔
      n ∈ (Engine.flagged ⟨rules, o.provider, tables⟩ t g.rule).map Prod.fst ∧
        ∃ size, g.size t n = .ok size ∧ high < size := by
  constructor
  · intro h
    obtain ⟨⟨n, f⟩, hf, rfl⟩ := List.mem_map.mp h
    obtain ⟨hn, hkind, -⟩ := mem_flagged_iff.mp hf
    obtain ⟨candidate, h, h'⟩ := exists_weighs_both hg ht hn hkind
    obtain ⟨c, hc, hlt, -⟩ := (mem_flagged_of_weighs hhigh hn hkind h').mp hf
    have hflagged := (mem_flagged_of_weighs hlow hn hkind h).mpr ⟨c, hc, by omega, rfl⟩
    exact ⟨List.mem_map.mpr ⟨_, hflagged, rfl⟩, c.size, h.size c hc, hlt⟩
  · rintro ⟨h, size, hsize, hlt⟩
    obtain ⟨⟨n, f⟩, hf, rfl⟩ := List.mem_map.mp h
    obtain ⟨hn, hkind, -⟩ := mem_flagged_iff.mp hf
    obtain ⟨candidate, h, h'⟩ := exists_weighs_both hg ht hn hkind
    obtain ⟨c, hc, -, -⟩ := (mem_flagged_of_weighs hlow hn hkind h).mp hf
    -- the size in question is that of the candidate
    have hsame : size = c.size := Except.ok.inj (hsize.symm.trans (h.size c hc))
    have hflagged := (mem_flagged_of_weighs hhigh hn hkind h').mpr ⟨c, hc, by omega, rfl⟩
    exact List.mem_map.mpr ⟨_, hflagged, rfl⟩

end Raised

/-! ## Raised thresholds -/

/-- A threshold is raised from one engine to another: the rule flags the nodes above its threshold
under both, and under the second exactly those of the nodes flagged under the first that are above
the higher threshold. Nothing else changes, and the tree can be analysed under both or neither. -/
structure Engine.Raises (g : Gauge) (t : Tree) (low high : Int) (e e' : Engine) : Prop where
  before : e.FlagsAbove g t low
  after : e'.FlagsAbove g t high
  flagged : ∀ n, n ∈ (e'.flagged t g.rule).map Prod.fst ↔
    n ∈ (e.flagged t g.rule).map Prod.fst ∧ ∃ size, g.size t n = .ok size ∧ high < size
  others : Progress.SameOthers g.rule.id (e.analyze t) (e'.analyze t)
  analysis : (∃ p, e.analysis t = .ok p) ↔ ∃ p, e'.analysis t = .ok p

theorem exists_analysis_iff {e : Engine} {t : Tree} (hends : e.Ends t) :
    (∃ p, e.analysis t = .ok p) ↔ ∀ f ∈ (e.analyze t).findings, f.isShowable = true := by
  have hmem {f : Finding} : f ∈ (e.analyze t).findings ↔ f ∈ (e.run t).findings :=
    (sortFindings_perm _).mem_iff
  simp only [Engine.analysis, listed_eq_ok_iff, isStuck_run hends, hmem, true_and]
  constructor
  · rintro ⟨_, hshowable, -⟩
    exact hshowable
  · intro hshowable
    exact ⟨_, hshowable, rfl⟩

section Analysis

variable {e e' : Engine} {g : Gauge} {t : Tree} {low high : Int} (hg : g ∈ gauges)

include hg

/-- A tree can be analysed if all can be shown that other rules find, and the measures of all nodes
that are flagged can be written. -/
theorem exists_analysis_iff_of_flagsAbove (hends : e.Ends t) (hlow : Number.isWritable low = true)
    (h : e.FlagsAbove g t low) :
    (∃ p, e.analysis t = .ok p) ↔
      (∀ f ∈ (e.analyze t).findings.filter (·.ruleId != g.rule.id), f.isShowable = true) ∧
      ∀ n ∈ (e.flagged t g.rule).map Prod.fst, ∀ size, g.size t n = .ok size →
        Number.isWritable size = true := by
  -- a finding is one of the rule exactly if a node is flagged for it
  have hown {f : Finding} : (f ∈ (e.analyze t).findings ∧ f.ruleId = g.rule.id) ↔
      ∃ n, (n, f) ∈ e.flagged t g.rule := by
    have hmem : f ∈ (e.analyze t).findings.filter (·.ruleId == g.rule.id) ↔
        f ∈ (e.flagged t g.rule).map Prod.snd := by
      rw [h.findings]
      exact (sortFindings_perm _).mem_iff
    simpa using hmem
  rw [exists_analysis_iff hends]
  constructor
  · intro hall
    refine ⟨fun f hf => hall f (List.mem_filter.mp hf).1, fun n hn size hsize => ?_⟩
    obtain ⟨⟨n, f⟩, hf, rfl⟩ := List.mem_map.mp hn
    obtain ⟨size', text, hsize', -, harguments⟩ := h.measured n f hf
    obtain rfl : size = size' := Except.ok.inj (hsize.symm.trans hsize')
    exact (isShowable_iff_isWritable hg hlow harguments).mp (hall f (hown.mpr ⟨n, hf⟩).1)
  · rintro ⟨hothers, hflagged⟩ f hf
    by_cases hid : f.ruleId = g.rule.id
    · obtain ⟨n, hn⟩ := hown.mp ⟨hf, hid⟩
      obtain ⟨size, text, hsize, -, harguments⟩ := h.measured n f hn
      have hsize := hflagged n (List.mem_map.mpr ⟨_, hn, rfl⟩) size hsize
      exact (isShowable_iff_isWritable hg hlow harguments).mpr hsize
    · exact hothers f (List.mem_filter.mpr ⟨hf, by simpa using hid⟩)

/-- What cannot be shown is above every threshold, so that raising one makes no difference. -/
theorem exists_analysis_iff_of_raised (hends : e.Ends t) (hends' : e'.Ends t)
    (hlow : Number.isWritable low = true) (hhigh : Number.isWritable high = true)
    (hbefore : e.FlagsAbove g t low) (hafter : e'.FlagsAbove g t high)
    (hflagged : ∀ n, n ∈ (e'.flagged t g.rule).map Prod.fst ↔
      n ∈ (e.flagged t g.rule).map Prod.fst ∧ ∃ size, g.size t n = .ok size ∧ high < size)
    (hothers : Progress.SameOthers g.rule.id (e.analyze t) (e'.analyze t)) :
    (∃ p, e.analysis t = .ok p) ↔ ∃ p, e'.analysis t = .ok p := by
  rw [exists_analysis_iff_of_flagsAbove hg hends hlow hbefore,
    exists_analysis_iff_of_flagsAbove hg hends' hhigh hafter, hothers.findings]
  refine and_congr_right fun _ => ⟨fun hall n hn => hall n ((hflagged n).mp hn).1,
    fun hall n hn size hsize => ?_⟩
  by_cases hlt : high < size
  · exact hall n ((hflagged n).mpr ⟨hn, size, hsize, hlt⟩) size hsize
  · -- between two thresholds that can be written
    obtain ⟨⟨n, f⟩, hf, rfl⟩ := List.mem_map.mp hn
    obtain ⟨size', text, hsize', hlt', -⟩ := hbefore.measured n f hf
    obtain rfl : size = size' := Except.ok.inj (hsize.symm.trans hsize')
    rw [Number.isWritable_iff_lt] at hlow hhigh ⊢
    omega

end Analysis

/-- **Raising a threshold only filters.** Let two sets of option values be the same but for fields
under the key of a threshold, and let the value that counts there, for the path of a tree that was
built or decoded, be an integer that can be written in both, a higher one in the second. Then both
are refused for the same reason, or both make options, and then the threshold is raised from the one
engine to the other, whatever rules of the catalogue they apply besides. -/
theorem raised_threshold_filters {g : Gauge} (hg : g ∈ gauges) {rules : List Rule}
    (hrules : rules.Sublist catalog) (hrule : g.rule ∈ rules) (tables : Tables) {t : Tree}
    (hmade : IsMade t) {shared shared' sections sections' : Value}
    (hshared : OptionsAgree (optionKey g.rule.id g.threshold) shared shared')
    (hsections : SectionListRel (OptionsAgree (optionKey g.rule.id g.threshold)) sections sections')
    {low high : Int} (hle : low ≤ high) (hlow : Number.isWritable low = true)
    (hhigh : Number.isWritable high = true)
    (hcounts : Counts shared (sectionsOf sections) t.path (optionKey g.rule.id g.threshold)
      (.int low))
    (hcounts' : Counts shared' (sectionsOf sections') t.path (optionKey g.rule.id g.threshold)
      (.int high)) :
    Alike
      (fun o o' => Engine.Raises g t low high ⟨rules, o.provider, tables⟩
        ⟨rules, o'.provider, tables⟩)
      (Options.ofValues shared sections) (Options.ofValues shared' sections') := by
  rcases (alike_ofValues hshared hsections).cases_eq with ⟨o, o', ho, ho', -⟩ | ⟨fault, ho, ho'⟩
  · rw [ho, ho']
    have ht := wellFormed_of_isMade hmade
    have hlookup : ∀ scope other, other ≠ optionKey g.rule.id g.threshold →
        o.lookup scope other = o'.lookup scope other :=
      fun scope other hother => lookup_eq_of_ne hother hshared hsections ho ho' scope
    have hthreshold := hasThreshold_of_int hg rules tables ho hcounts hlow
    have hthreshold' := hasThreshold_of_int hg rules tables ho' hcounts' hhigh
    have hbefore := flagsAbove hthreshold hg ht hrules hrule
    have hafter := flagsAbove hthreshold' hg ht hrules hrule
    have hflagged := flagged_iff_of_le hg ht hthreshold hthreshold' hle
    have hrun := sameOthers_run hg hrules ht hlookup hthreshold hthreshold'
    have hothers : Progress.SameOthers g.rule.id
        (Engine.analyze ⟨rules, o.provider, tables⟩ t)
        (Engine.analyze ⟨rules, o'.provider, tables⟩ t) := by
      refine ⟨?_, hrun.failures, hrun.isStuck⟩
      show (sortFindings _).filter _ = (sortFindings _).filter _
      rw [filter_sortFindings, filter_sortFindings, hrun.findings]
    have hcatalog : ∀ r ∈ rules, r ∈ catalog := fun r hr => hrules.subset hr
    have hends : Engine.Ends ⟨rules, o.provider, tables⟩ t := ends_of_wellFormed hcatalog ht
    have hends' : Engine.Ends ⟨rules, o'.provider, tables⟩ t := ends_of_wellFormed hcatalog ht
    exact .ok ⟨hbefore, hafter, hflagged, hothers,
      exists_analysis_iff_of_raised hg hends hends' hlow hhigh hbefore hafter hflagged hothers⟩
  · rw [ho, ho']
    exact .error fault

theorem isMade_billingTree : IsMade billingTree := by
  refine Or.inl ⟨"src/Billing.cs", [.add none billingMethod.toFacts,
    .add (some 1) { kind := .block }, .build], ?_⟩
  exact List.mem_of_getElem? (i := 2) rfl

/-- Sections that set the threshold for the lines of private methods, for the files of a
directory. -/
def lineSections (limit : Int) : Value :=
  .list [.object [field "files" (.text "src/*"),
    field "options" (.object [field (optionKey "SEAM011" "complexity_threshold") (.int limit)])]]

/-- A method of nine lines is flagged under five and no longer under twenty, though the shared
options say fifty. -/
theorem raised_threshold_filters_lines :
    ∃ o o', Options.ofValues
        (.object [field (optionKey "SEAM011" "complexity_threshold") (.int 50)]) (lineSections 5) =
          .ok o ∧
      Options.ofValues
        (.object [field (optionKey "SEAM011" "complexity_threshold") (.int 50)]) (lineSections 20) =
          .ok o' ∧
      billingMethod ∈ (Engine.flagged ⟨[largePrivateMethod], o.provider, {}⟩ billingTree
        largePrivateMethod).map Prod.fst ∧
      billingMethod ∉ (Engine.flagged ⟨[largePrivateMethod], o'.provider, {}⟩ billingTree
        largePrivateMethod).map Prod.fst := by
  have hsmall (n : Int) (hn : n.natAbs < 10 ^ 2) : (Value.int n).isShowable = true :=
    Number.isWritable_of_small hn
  have hwritable : isWritableField (field (optionKey "SEAM011" "complexity_threshold") (.int 5)) =
      isWritableField (field (optionKey "SEAM011" "complexity_threshold") (.int 20)) := by
    simp only [isWritableField, field, hsmall 5 (by decide), hsmall 20 (by decide), Value.shape]
  have hsections : SectionListRel (OptionsAgree (optionKey "SEAM011" "complexity_threshold"))
      (lineSections 5) (lineSections 20) := by
    refine Or.inr ⟨_, _, rfl, rfl, .cons (Or.inr ⟨_, _, rfl, rfl, ?_⟩) .nil⟩
    refine .cons (Or.inl rfl) (.cons (Or.inr ⟨_, _, rfl, rfl, ?_⟩) .nil)
    exact Or.inr ⟨_, _, rfl, rfl, .cons (Or.inr ⟨rfl, rfl, hwritable⟩) .nil⟩
  have hcounts (limit : Int) : Counts
      (.object [field (optionKey "SEAM011" "complexity_threshold") (.int 50)])
      (sectionsOf (lineSections limit)) "src/Billing.cs"
      (optionKey "SEAM011" "complexity_threshold") (.int limit) := by
    refine Or.inl ⟨[], _, [], rfl, ⟨?_, _, rfl, [], _, [], rfl, rfl, by simp [Value.shape], ?_⟩, ?_⟩
    · show Section.appliesTo ⟨"src/*", []⟩ "src/Billing.cs" = true
      decide +kernel
    · exact List.forall_mem_nil _
    · exact List.forall_mem_nil _
  have hmem : lineGauge ∈ gauges := List.mem_cons_self
  have hrules : [largePrivateMethod].Sublist catalog := by simp [catalog]
  have hraised := raised_threshold_filters hmem hrules List.mem_cons_self {} isMade_billingTree
    (Or.inl rfl) hsections (by decide) (Number.isWritable_of_small (by decide))
    (Number.isWritable_of_small (by decide)) (hcounts 5) (hcounts 20)
  rcases hraised.cases_eq with ⟨o, o', ho, ho', hraises⟩ | ⟨fault, ho, -⟩
  · refine ⟨o, o', ho, ho', ?_, fun hflagged => ?_⟩
    · have hthreshold : (Engine.context ⟨[largePrivateMethod], o.provider, {}⟩ billingTree
          largePrivateMethod).HasThreshold lineThreshold 5 :=
        hasThreshold_of_int (t := billingTree) hmem [largePrivateMethod] {} ho (hcounts 5)
          (Number.isWritable_of_small (by decide))
      obtain ⟨body, hbody, hblock⟩ : ∃ body, billingTree.body billingMethod = .ok (some body) ∧
        body.kind = .block := ⟨_, rfl, rfl⟩
      have hfound := evaluate_largePrivateMethod (n := billingMethod) rfl hbody hblock hthreshold
        (by decide)
      exact List.mem_map.mpr ⟨_, mem_flagged_iff.mpr ⟨Array.mem_of_getElem? (i := 1) rfl,
        List.mem_singleton.mpr rfl, hfound⟩, rfl⟩
    · obtain ⟨-, size, hsize, hlt⟩ := (hraises.flagged billingMethod).mp hflagged
      cases hsize
      exact absurd hlt (by decide)
  · obtain ⟨o, hmade⟩ := exists_ofValues_of_sections
      (isOptions_single (optionKey "SEAM011" "complexity_threshold") (hsmall 50 (by decide)))
      (List.forall_mem_singleton.mpr (exists_ofValue_single "src/*"
        (optionKey "SEAM011" "complexity_threshold") (hsmall 5 (by decide))))
    cases ho.symm.trans hmade

end SeamLint.Scan
