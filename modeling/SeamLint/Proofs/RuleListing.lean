import Mathlib.Data.String.Basic
import SeamLint.Proofs.ExitCode

set_option autoImplicit false

/-! # The listing of rules and the rules of a scan

Which rules are on is decided twice: the listing asks the configuration rule by rule and compares
the values of its lists one by one, and the engine selects its rules by sets of keys. Both decide
alike wherever an engine can be made (`Config.ruleEnabled_of_rules`), so the listing shows what
every report of the engine names as its rules (`listing_agrees_with_scan`).
-/

namespace SeamLint.Finding

/-! ## Counting findings -/

/-- The counts are those of the findings: every rule that found something is there once, with the
number of its findings. -/
structure Tallies (counts : List (String × Nat)) (findings : List Finding) : Prop where
  nodup : (counts.map Prod.fst).Nodup
  mem_iff : ∀ id n, (id, n) ∈ counts ↔ 0 < n ∧ findings.countP (·.ruleId == id) = n

theorem map_fst_countRule (id : String) (counts : List (String × Nat)) :
    (countRule id counts).map Prod.fst =
      if id ∈ counts.map Prod.fst then counts.map Prod.fst else counts.map Prod.fst ++ [id] := by
  induction counts with
  | nil => rfl
  | cons entry rest ih =>
    obtain ⟨other, n⟩ := entry
    unfold countRule
    by_cases h : other = id
    · simp [h]
    · have hne : id ≠ other := Ne.symm h
      rw [if_neg h, List.map_cons, ih]
      by_cases hmem : id ∈ rest.map Prod.fst
      · simp [hmem]
      · simp [hmem, hne]

/-- What is counted for another rule stays as it is. -/
theorem mem_countRule_of_ne {id other : String} (hne : other ≠ id) {counts : List (String × Nat)}
    {n : Nat} : (other, n) ∈ countRule id counts ↔ (other, n) ∈ counts := by
  induction counts with
  | nil => simp [countRule, hne]
  | cons entry rest ih =>
    obtain ⟨first, m⟩ := entry
    unfold countRule
    by_cases h : first = id
    · simp [h, hne]
    · rw [if_neg h, List.mem_cons, List.mem_cons, ih]

/-- The number of a rule goes up by one. -/
theorem mem_countRule_self {id : String} {counts : List (String × Nat)}
    (hnodup : (counts.map Prod.fst).Nodup) {n : Nat} :
    (id, n) ∈ countRule id counts ↔
      (∃ m, (id, m) ∈ counts ∧ n = m + 1) ∨ (id ∉ counts.map Prod.fst ∧ n = 1) := by
  induction counts with
  | nil => simp [countRule]
  | cons entry rest ih =>
    obtain ⟨first, m⟩ := entry
    rw [List.map_cons, List.nodup_cons] at hnodup
    unfold countRule
    by_cases h : first = id
    · -- the entry of the rule is the first one, and there is no other
      subst h
      have hfresh : ∀ k, (first, k) ∉ rest := fun k hk =>
        hnodup.1 (List.mem_map.mpr ⟨(first, k), hk, rfl⟩)
      simp [hfresh]
    · have hne : id ≠ first := Ne.symm h
      rw [if_neg h, List.mem_cons, ih hnodup.2]
      simp [hne]

theorem Tallies.step {counts : List (String × Nat)} {findings : List Finding}
    (h : Tallies counts findings) (f : Finding) :
    Tallies (countRule f.ruleId counts) (findings ++ [f]) := by
  constructor
  · rw [map_fst_countRule]
    split
    case isTrue => exact h.nodup
    case isFalse hnew =>
      refine List.Nodup.append h.nodup (List.nodup_singleton _) ?_
      exact List.disjoint_singleton.mpr hnew
  · intro id n
    rw [List.countP_append]
    by_cases hid : id = f.ruleId
    · subst hid
      rw [mem_countRule_self h.nodup]
      have hone : List.countP (fun g : Finding => g.ruleId == f.ruleId) [f] = 1 := by simp
      rw [hone]
      -- a rule without an entry has found nothing so far
      have hmissing : f.ruleId ∉ counts.map Prod.fst ↔
          findings.countP (·.ruleId == f.ruleId) = 0 := by
        constructor
        · intro hnew
          by_contra hcount
          refine hnew (List.mem_map.mpr ⟨(f.ruleId, _), (h.mem_iff _ _).mpr ⟨?_, rfl⟩, rfl⟩)
          exact Nat.pos_of_ne_zero hcount
        · intro hcount hmem
          obtain ⟨⟨id, m⟩, hentry, rfl⟩ := List.mem_map.mp hmem
          have hm := (h.mem_iff _ _).mp hentry
          exact absurd (hm.2.symm.trans hcount) (Nat.pos_iff_ne_zero.mp hm.1)
      constructor
      · rintro (⟨m, hm, rfl⟩ | ⟨hnew, rfl⟩)
        · have hm := (h.mem_iff _ _).mp hm
          exact ⟨Nat.succ_pos m, by rw [hm.2]⟩
        · exact ⟨Nat.one_pos, by rw [hmissing.mp hnew]⟩
      · rintro ⟨hpos, hcount⟩
        by_cases hzero : findings.countP (·.ruleId == f.ruleId) = 0
        · exact Or.inr ⟨hmissing.mpr hzero, by omega⟩
        · exact Or.inl ⟨_, (h.mem_iff _ _).mpr ⟨Nat.pos_of_ne_zero hzero, rfl⟩, hcount.symm⟩
    · have hother : List.countP (fun g : Finding => g.ruleId == id) [f] = 0 := by
        simp [Ne.symm hid]
      rw [mem_countRule_of_ne hid, h.mem_iff, hother, Nat.add_zero]

/-- **The counts of a report are those of its findings.** -/
theorem tallies_byRule (r : Report) : Tallies r.byRule r.findings := by
  have hempty : Tallies [] [] := ⟨List.nodup_nil, fun id n => by
    simp only [List.not_mem_nil, List.countP_nil, false_iff]
    omega⟩
  unfold Report.byRule
  induction r.findings using List.reverseRecOn with
  | nil => exact hempty
  | append_singleton findings f ih =>
    rw [List.foldl_append]
    exact ih.step f

theorem mem_keys_byRule {r : Report} {id : String} :
    id ∈ r.byRule.map Prod.fst ↔ ∃ f ∈ r.findings, f.ruleId = id := by
  have h := tallies_byRule r
  constructor
  · intro hid
    obtain ⟨⟨id, n⟩, hentry, rfl⟩ := List.mem_map.mp hid
    obtain ⟨hpos, rfl⟩ := (h.mem_iff _ _).mp hentry
    obtain ⟨f, hf, hid⟩ := List.countP_pos_iff.mp hpos
    exact ⟨f, hf, beq_iff_eq.mp hid⟩
  · rintro ⟨f, hf, rfl⟩
    have hpos : 0 < r.findings.countP (·.ruleId == f.ruleId) :=
      List.countP_pos_iff.mpr ⟨f, hf, beq_iff_eq.mpr rfl⟩
    exact List.mem_map.mpr ⟨(f.ruleId, _), (h.mem_iff _ _).mpr ⟨hpos, rfl⟩, rfl⟩

/-- No rule has more findings than there are. -/
theorem isWritable_of_mem_byRule {r : Report} (h : Number.isWritable r.findings.length = true)
    {entry : String × Nat} (hentry : entry ∈ r.byRule) : Number.isWritable entry.2 = true := by
  obtain ⟨-, hcount⟩ := ((tallies_byRule r).mem_iff entry.1 entry.2).mp hentry
  have hle : entry.2 ≤ r.findings.length := hcount ▸ List.countP_le_length
  rw [Number.isWritable_iff] at h ⊢
  exact lt_of_le_of_lt (by simpa using hle) h

end SeamLint.Finding

namespace SeamLint.Scan

open SeamLint.Code SeamLint.Data SeamLint.Finding SeamLint.Rule

/-! ## Which rules are on -/

theorem isId_iff {id : String} {v : Value} : Config.isId id v = true ↔ v = .text id := by
  cases v with
  | text s => simp [Config.isId]
  | _ => simp [Config.isId]

theorem toKey_eq_text {id : String} {v : Value} : v.toKey = .ok (.text id) ↔ v = .text id := by
  cases v with
  | text s => simp [Value.toKey]
  | _ => simp [Value.toKey]

/-- Only the text of an id is the same key. -/
theorem lists_iff {keys : List Key} {id : String} : lists keys id = true ↔ .text id ∈ keys := by
  unfold lists
  rw [List.any_eq_true]
  constructor
  · rintro ⟨key, hkey, hsame⟩
    exact same_text.mp hsame ▸ hkey
  · intro hkey
    exact ⟨_, hkey, same_text.mpr rfl⟩

/-- A list of values names an id if and only if the set of its keys does. -/
theorem any_isId_eq_lists {items : List Value} {keys : List Key}
    (h : idsOf (.list items) = .ok keys) (id : String) :
    items.any (Config.isId id) = lists keys id := by
  have hmapM : items.mapM Value.toKey = .ok keys := h
  rw [Bool.eq_iff_iff, lists_iff, mem_iff_of_mapM_eq_ok hmapM, List.any_eq_true]
  simp only [isId_iff, toKey_eq_text]

namespace Config

variable {c : Config}

/-- The rules that are on are those of the catalogue that its two lists make active. -/
theorem rules_eq_ok {rules : List Rule} (h : c.rules = .ok rules) :
    ∃ enabled disabled on off, c.enabledRules = .ok enabled ∧ c.disabledRules = .ok disabled ∧
      idsOf (.list enabled) = .ok on ∧ idsOf (.list disabled) = .ok off ∧
      rules = activeRules on off := by
  unfold Config.rules selectRules at h
  obtain ⟨enabled, henabled, hrest⟩ := bind_eq_ok.mp h
  obtain ⟨disabled, hdisabled, hrest⟩ := bind_eq_ok.mp hrest
  obtain ⟨on, hon, hrest⟩ := bind_eq_ok.mp hrest
  obtain ⟨off, hoff, heq⟩ := bind_eq_ok.mp hrest
  cases heq
  exact ⟨enabled, disabled, on, off, henabled, hdisabled, hon, hoff, rfl⟩

theorem ruleEnabled_eq {enabled disabled : List Value} (henabled : c.enabledRules = .ok enabled)
    (hdisabled : c.disabledRules = .ok disabled) (id : String) (byDefault : Bool) :
    c.ruleEnabled id byDefault =
      .ok (!disabled.any (isId id) && (byDefault || enabled.any (isId id))) := by
  unfold ruleEnabled
  rw [henabled, hdisabled]
  show (if disabled.any (isId id) = true then _ else if byDefault = true then _ else _) = _
  cases disabled.any (isId id) with
  | true => rfl
  | false =>
    cases byDefault with
    | true => rfl
    | false => rfl

/-- **Both ways to decide which rules are on meet** where the rules can be selected. -/
theorem ruleEnabled_of_rules {rules : List Rule} (h : c.rules = .ok rules) {r : Rule}
    (hr : r ∈ catalog) :
    ∃ enabled, c.ruleEnabled r.id r.descriptor.enabledByDefault = .ok enabled ∧
      (enabled = true ↔ r ∈ rules) := by
  obtain ⟨enabled, disabled, on, off, henabled, hdisabled, hon, hoff, rfl⟩ := rules_eq_ok h
  refine ⟨_, ruleEnabled_eq henabled hdisabled _ _, ?_⟩
  rw [any_isId_eq_lists hon, any_isId_eq_lists hoff]
  exact ⟨fun hactive => List.mem_filter.mpr ⟨hr, hactive⟩, fun hmem => (List.mem_filter.mp hmem).2⟩

theorem rules_of_engine {e : Engine} (h : c.engine = .ok e) : c.rules = .ok e.rules := by
  unfold Config.engine at h
  obtain ⟨rules, hrules, hrest⟩ := bind_eq_ok.mp h
  obtain ⟨options, -, heq⟩ := bind_eq_ok.mp hrest
  cases heq
  exact hrules

/-- The rules of an engine stand in the order of the catalogue. -/
theorem sublist_of_rules {rules : List Rule} (h : c.rules = .ok rules) :
    List.Sublist rules catalog := by
  obtain ⟨-, -, on, off, -, -, -, -, rfl⟩ := rules_eq_ok h
  exact List.filter_sublist

end Config

/-! ## The ids of the rules -/

/-- The catalogue is in the order of its ids. -/
theorem catalog_ids_increasing : (catalog.map Rule.id).Pairwise (· < ·) := by decide

/-- The rules of a catalogue in order have their ids in order already. -/
theorem ruleIds_of_sublist {e : Engine} (h : List.Sublist e.rules catalog) :
    e.ruleIds = e.rules.map Rule.id ∧ e.ruleIds.Pairwise (· < ·) := by
  have hlt : (e.rules.map Rule.id).Pairwise (· < ·) := catalog_ids_increasing.sublist (h.map _)
  have hsort : e.ruleIds = e.rules.map Rule.id :=
    List.mergeSort_of_pairwise (hlt.imp fun hlt => decide_eq_true (le_of_lt hlt))
  exact ⟨hsort, hsort ▸ hlt⟩

theorem id_mem_ids_iff {rules : List Rule} (h : ∀ r ∈ rules, r ∈ catalog) {r : Rule}
    (hr : r ∈ catalog) : r.id ∈ rules.map Rule.id ↔ r ∈ rules := by
  constructor
  · intro hid
    obtain ⟨s, hs, hsid⟩ := List.mem_map.mp hid
    exact eq_of_id_eq (h s hs) hr hsid ▸ hs
  · intro hmem
    exact List.mem_map_of_mem hmem

/-- There is nothing in no trees. -/
theorem report_nil (e : Engine) : e.report [] = .ok (e.scan []) :=
  report_eq_ok_iff.mpr ⟨List.forall_mem_nil _, rfl⟩

end SeamLint.Scan

namespace SeamLint.Command

open SeamLint.Code SeamLint.Data SeamLint.Finding SeamLint.Rule SeamLint.Scan

/-! ## The listing -/

theorem filterAuxM_eq_ok {ε α : Type} {test : α → Except ε Bool} {holds : α → Bool} {as : List α}
    (h : ∀ a ∈ as, test a = .ok (holds a)) (kept : List α) :
    List.filterAuxM test as kept = .ok ((as.filter holds).reverse ++ kept) := by
  induction as generalizing kept with
  | nil => rfl
  | cons a as ih =>
    rw [List.forall_mem_cons] at h
    unfold List.filterAuxM
    rw [h.1]
    show List.filterAuxM test as (cond (holds a) (a :: kept) kept) = _
    rw [ih h.2]
    cases ha : holds a with
    | true => simp [ha]
    | false => simp [ha]

/-- What is kept is what passes the test, if the test has an answer for everything. -/
theorem filterM_eq_ok {ε α : Type} {test : α → Except ε Bool} {holds : α → Bool} {as : List α}
    (h : ∀ a ∈ as, test a = .ok (holds a)) : as.filterM test = .ok (as.filter holds) := by
  unfold List.filterM
  rw [filterAuxM_eq_ok h]
  show Except.ok _ = Except.ok _
  simp

theorem activeIds_of_rules {config : Config} {rules : List Rule} (h : config.rules = .ok rules) :
    activeIds config = .ok (rules.map Rule.id) := by
  obtain ⟨enabled, disabled, on, off, henabled, hdisabled, hon, hoff, rfl⟩ :=
    Config.rules_eq_ok h
  have htest : ∀ d ∈ descriptors,
      (config.ruleEnabled d.id d.enabledByDefault : Except Scan.Fault Bool) =
        .ok (isActive on off d.id d.enabledByDefault) := by
    intro d _
    rw [Config.ruleEnabled_eq henabled hdisabled, any_isId_eq_lists hon, any_isId_eq_lists hoff]
    rfl
  unfold activeIds
  rw [filterM_eq_ok htest]
  show Except.ok _ = Except.ok _
  unfold activeRules descriptors
  rw [List.filter_map, List.map_map]
  rfl

/-- **The listing of rules agrees with what a scan applies.** If an engine can be made from a
configuration, the configuration answers for every rule of the catalogue whether it is on, and the
rule is on if and only if a report of the engine names it, whatever the report is about; there
is such a report. The listing of rules marks the rules that are named. They are named in strictly
increasing order, and a report has findings and counts of no other rules. -/
theorem listing_agrees_with_scan {config : Config} {e : Engine} (h : config.engine = .ok e) :
    (∀ d ∈ descriptors, ∃ enabled, config.ruleEnabled d.id d.enabledByDefault = .ok enabled ∧
      ∀ trees report, e.report trees = .ok report → (enabled = true ↔ d.id ∈ report.rules)) ∧
    (∃ report, e.report [] = .ok report) ∧
    ∀ trees report, e.report trees = .ok report →
      activeIds config = .ok report.rules ∧
      report.rules.Pairwise (· < ·) ∧
      (∀ f ∈ report.findings, f.ruleId ∈ report.rules) ∧
      ∀ entry ∈ report.byRule, entry.1 ∈ report.rules := by
  have hrules := Config.rules_of_engine h
  have hsublist := Config.sublist_of_rules hrules
  have hcatalog : ∀ r ∈ e.rules, r ∈ catalog := fun r hr => hsublist.subset hr
  obtain ⟨hids, hincreasing⟩ := ruleIds_of_sublist hsublist
  refine ⟨?_, ⟨_, report_nil e⟩, ?_⟩
  · intro d hd
    obtain ⟨r, hr, rfl⟩ := List.mem_map.mp hd
    obtain ⟨enabled, henabled, hiff⟩ := Config.ruleEnabled_of_rules hrules hr
    refine ⟨enabled, henabled, fun trees report hreport => ?_⟩
    obtain rfl := eq_scan_of_report hreport
    rw [hiff, ← id_mem_ids_iff hcatalog hr, ← hids]
    rfl
  · intro trees report hreport
    obtain rfl := eq_scan_of_report hreport
    have hfinding : ∀ f ∈ (e.scan trees).findings, f.ruleId ∈ e.ruleIds := by
      intro f hf
      obtain ⟨t, -, r, hr, n, -, hfound⟩ := exists_visit_of_mem_scan hf
      rw [signs_of_mem_catalog (hcatalog r hr) _ _ _ hfound, hids]
      exact List.mem_map_of_mem hr
    refine ⟨?_, hincreasing, hfinding, fun entry hentry => ?_⟩
    · rw [activeIds_of_rules hrules, ← hids]
      rfl
    · obtain ⟨f, hf, hid⟩ := mem_keys_byRule.mp (List.mem_map_of_mem hentry)
      exact hid ▸ hfinding f hf

/-- A rule that is listed twice is on once, next to values that are no ids. A text in the place of
the other list is taken for its letters, and none of them is an id. -/
theorem listing_agrees_with_scan_lists :
    let config : Config := ⟨[field "rules" (.object
      [field "enabled" (.list [.text "SEAM002", .null, .int 3, .text "SEAM002"]),
       field "disabled" (.text "SEAM001")])], none⟩
    ∃ e, config.engine = .ok e ∧ config.ruleEnabled "SEAM002" false = .ok true ∧
      config.ruleEnabled "SEAM004" false = .ok false ∧
      ∀ trees report, e.report trees = .ok report →
        "SEAM001" ∈ report.rules ∧ "SEAM002" ∈ report.rules ∧ "SEAM004" ∉ report.rules := by
  intro config
  have hengine : ∃ e, config.engine = .ok e := ⟨_, rfl⟩
  obtain ⟨e, he⟩ := hengine
  have hasks : config.ruleEnabled "SEAM001" true = .ok true ∧
      config.ruleEnabled "SEAM002" false = .ok true ∧
      config.ruleEnabled "SEAM004" false = .ok false := ⟨rfl, rfl, rfl⟩
  obtain ⟨hfirst, hsecond, hfourth⟩ := hasks
  obtain ⟨hrules, -, -⟩ := listing_agrees_with_scan he
  refine ⟨e, he, hsecond, hfourth, fun trees report hreport => ?_⟩
  obtain ⟨_, h₁, hiff₁⟩ := hrules directInstantiation.descriptor (by simp [descriptors, catalog])
  obtain ⟨_, h₂, hiff₂⟩ := hrules concreteParameter.descriptor (by simp [descriptors, catalog])
  obtain ⟨_, h₄, hiff₄⟩ := hrules staticCall.descriptor (by simp [descriptors, catalog])
  cases h₁.symm.trans hfirst
  cases h₂.symm.trans hsecond
  cases h₄.symm.trans hfourth
  refine ⟨(hiff₁ trees report hreport).mp rfl, (hiff₂ trees report hreport).mp rfl, fun hmem => ?_⟩
  exact Bool.false_ne_true ((hiff₄ trees report hreport).mpr hmem)

end SeamLint.Command
