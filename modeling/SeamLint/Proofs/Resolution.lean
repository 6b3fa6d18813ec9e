import Mathlib.Data.List.Forall2
import SeamLint.Proofs.IntegerText
import SeamLint.Proofs.SharedResolver

set_option autoImplicit false

/-! # What settings are resolved to

Settings are put together key by key: each list of exclusions comes from the answer to its own
key, each threshold from the answer to its own (`settings_resolveWith_eq_ok_iff`). A lookup that
fails is as good as one that finds nothing (`settings_congr_text`), and an answer bears on
nothing but what it was asked for (`agreeBut_of_eq_ok`).

Resolving is meant never to fail, since a text that is no integer leaves its threshold at the
default. It does fail on texts that are shaped like an integer and cannot be read as one, and on
no others (`exists_settings_iff`).
-/

namespace SeamLint.Settings

open SeamLint.Number SeamLint.Text

/-! ## Single thresholds -/

/-- An answer is usable for a threshold unless its text is shaped like an integer that cannot
be read. -/
def Answer.IsUsable (a : Answer) : Prop :=
  ∀ text, a = .text text → isIntegerShaped text.toList = true → IsReadable text.toList

/-- The answer sets a threshold to the integer that its text denotes; if its text denotes none,
or there is no text, the threshold stays at its default. -/
def Answer.Sets (a : Answer) (default value : Int) : Prop :=
  (∃ text left sign digits right, a = .text text ∧
    IntegerForm text.toList left sign digits right ∧
    value = signed (sign == ['-']) (digitsValue digits)) ∨
  (∀ text, a = .text text → isIntegerShaped text.toList = false) ∧ value = default

theorem exists_readThreshold_iff {a : Answer} {default : Int} :
    (∃ value, readThreshold a.text? default = .ok value) ↔ a.IsUsable := by
  cases a with
  | text s =>
      simp only [Answer.text?, readThreshold, Answer.IsUsable, Answer.text.injEq, forall_eq']
      by_cases hshape : isIntegerShaped s.toList = true
      · rw [if_pos hshape, exists_readInteger_iff hshape]
        exact ⟨fun h _ => h, fun h => h hshape⟩
      · rw [if_neg hshape]
        exact ⟨fun _ h => absurd h hshape, fun _ => ⟨default, rfl⟩⟩
  | unset => exact ⟨fun _ _ htext => (nomatch htext), fun _ => ⟨default, rfl⟩⟩
  | failed => exact ⟨fun _ _ htext => (nomatch htext), fun _ => ⟨default, rfl⟩⟩

theorem sets_of_readThreshold {a : Answer} {default value : Int}
    (h : readThreshold a.text? default = .ok value) : a.Sets default value := by
  cases a with
  | text s =>
      simp only [Answer.text?, readThreshold] at h
      split at h
      · next hshape =>
          obtain ⟨left, sign, digits, right, hform⟩ := isIntegerShaped_iff.mp hshape
          refine Or.inl ⟨s, left, sign, digits, right, rfl, hform, ?_⟩
          rw [readInteger_of_form hform] at h
          split at h
          · cases h
          · split at h
            · cases h
            · split at h
              · cases h
              · exact (Except.ok.inj h).symm
      · next hshape =>
          refine Or.inr ⟨fun text htext => ?_, (Except.ok.inj h).symm⟩
          cases htext
          exact Bool.not_eq_true _ ▸ hshape
  | unset => exact Or.inr ⟨fun _ htext => (nomatch htext), (Except.ok.inj h).symm⟩
  | failed => exact Or.inr ⟨fun _ htext => (nomatch htext), (Except.ok.inj h).symm⟩

theorem isWritable_of_readThreshold {text : Option String} {default value : Int}
    (hdefault : isWritable default = true) (h : readThreshold text default = .ok value) :
    isWritable value = true := by
  unfold readThreshold at h
  split at h
  · rw [← Except.ok.inj h]
    exact hdefault
  · split at h
    · next hshape => exact isWritable_of_readInteger hshape h
    · rw [← Except.ok.inj h]
      exact hdefault

/-! ## All settings of a request -/

/-- The threshold with this default, looked up with this number, has the given value. -/
def ThresholdSet (ruleId : String) (ask : Answers) (d : (String × Int) × Nat)
    (v : String × Int) : Prop :=
  v.1 = d.1.1 ∧ readThreshold (ask d.2 (optionKey ruleId d.1.1)).text? d.1.2 = .ok v.2

theorem resolveThresholds_eq_ok_iff {ruleId : String} {ask : Answers} {number : Nat}
    {defaults values : List (String × Int)} :
    (resolveThresholds ruleId ask number defaults).1 = .ok values ↔
      List.Forall₂ (ThresholdSet ruleId ask) (defaults.zipIdx number) values := by
  induction defaults generalizing number values with
  | nil =>
      rw [List.zipIdx_nil, List.forall₂_nil_left_iff]
      exact ⟨fun h => (Except.ok.inj h).symm, fun h => congrArg Except.ok h.symm⟩
  | cons d rest ih =>
      obtain ⟨name, default⟩ := d
      rw [List.zipIdx_cons, List.forall₂_cons_left_iff]
      simp only [resolveThresholds, ThresholdSet]
      cases hread : readThreshold (ask number (optionKey ruleId name)).text? default with
      | error fault => simp
      | ok value =>
          cases hrest : (resolveThresholds ruleId ask (number + 1) rest).1 with
          | error fault =>
              -- this threshold is read, but one of those after it is not
              refine ⟨fun h => (nomatch h), ?_⟩
              rintro ⟨v, vs, -, hvs, -⟩
              rw [ih.mpr hvs] at hrest
              cases hrest
          | ok others =>
              constructor
              · rintro h
                cases h
                exact ⟨(name, value), others, ⟨rfl, rfl⟩, ih.mp hrest, rfl⟩
              · rintro ⟨⟨v, n⟩, vs, ⟨rfl, hn⟩, hvs, rfl⟩
                rw [ih.mpr hvs] at hrest
                cases hrest
                cases hn
                rfl

theorem exists_resolveThresholds_iff {ruleId : String} {ask : Answers} {number : Nat}
    {defaults : List (String × Int)} :
    (∃ values, (resolveThresholds ruleId ask number defaults).1 = .ok values) ↔
      ∀ d ∈ defaults.zipIdx number, (ask d.2 (optionKey ruleId d.1.1)).IsUsable := by
  simp only [resolveThresholds_eq_ok_iff]
  generalize defaults.zipIdx number = numbered
  induction numbered with
  | nil => simp
  | cons d rest ih =>
      rw [List.forall_mem_cons, ← ih, ← @exists_readThreshold_iff _ d.1.2]
      constructor
      · rintro ⟨values, h⟩
        obtain ⟨v, vs, hv, hvs, rfl⟩ := List.forall₂_cons_left_iff.mp h
        exact ⟨⟨v.2, hv.2⟩, vs, hvs⟩
      · rintro ⟨⟨value, hvalue⟩, vs, hvs⟩
        exact ⟨(d.1.1, value) :: vs, .cons ⟨rfl, hvalue⟩ hvs⟩

/-- **Settings, key by key.** -/
theorem settings_resolveWith_eq_ok_iff {r : Request} {ask : Answers} {s : RuleSettings} :
    (resolveWith r ask).settings = .ok s ↔
      s.ruleId = r.ruleId ∧
      s.excludedTypes = symbolListOf (ask 0 (optionKey r.ruleId "excluded_types")).text? ∧
      s.excludedMethods = symbolListOf (ask 1 (optionKey r.ruleId "excluded_methods")).text? ∧
      s.excludedNamespaces =
        symbolListOf (ask 2 (optionKey r.ruleId "excluded_namespaces")).text? ∧
      List.Forall₂ (ThresholdSet r.ruleId ask) (r.normal.defaults.zipIdx 3) s.thresholds := by
  rw [← resolveThresholds_eq_ok_iff]
  simp only [resolveWith]
  cases (resolveThresholds r.ruleId ask 3 r.normal.defaults).1 with
  | error fault => simp [Except.map]
  | ok values =>
      obtain ⟨ruleId, types, methods, namespaces, thresholds⟩ := s
      simp only [Except.map, Except.ok.injEq, RuleSettings.mk.injEq]
      grind

/-- **Resolving fails on unusable thresholds and on nothing else.** -/
theorem exists_settings_iff {r : Request} {ask : Answers} :
    (∃ s, (resolveWith r ask).settings = .ok s) ↔
      ∀ d ∈ r.normal.defaults.zipIdx 3, (ask d.2 (optionKey r.ruleId d.1.1)).IsUsable := by
  rw [← exists_resolveThresholds_iff]
  simp only [resolveWith]
  cases (resolveThresholds r.ruleId ask 3 r.normal.defaults).1 with
  | error fault => simp [Except.map]
  | ok values => simp [Except.map]

/-! ## What settings depend on -/

/-- What options answer is what is looked up in them. -/
theorem text?_provider (o : Options) (scope key : String) :
    (o.provider scope key).text? = o.lookup scope key := by
  unfold Options.provider
  cases o.lookup scope key <;> rfl

/-- Thresholds depend on the texts that are found under their own keys. -/
theorem resolveThresholds_congr {ruleId : String} {ask ask' : Answers}
    {defaults : List (String × Int)}
    (h : ∀ d ∈ defaults, ∀ number,
      (ask number (optionKey ruleId d.1)).text? = (ask' number (optionKey ruleId d.1)).text?)
    (number : Nat) :
    (resolveThresholds ruleId ask number defaults).1 =
      (resolveThresholds ruleId ask' number defaults).1 := by
  induction defaults generalizing number with
  | nil => rfl
  | cons d rest ih =>
      obtain ⟨name, default⟩ := d
      obtain ⟨hname, hrest⟩ := List.forall_mem_cons.mp h
      simp only [resolveThresholds, hname number]
      cases readThreshold (ask' number (optionKey ruleId name)).text? default with
      | error fault => rfl
      | ok value => simp only [ih hrest]

/-- Settings depend on the texts that are found, and not on why there are none. -/
theorem settings_congr_text {r : Request} {ask ask' : Answers}
    (h : ∀ number key, (ask number key).text? = (ask' number key).text?) :
    (resolveWith r ask).settings = (resolveWith r ask').settings := by
  simp only [resolveWith, h, resolveThresholds_congr fun _ _ number => h number _]

/-- A provider that never fails and finds what the given one finds. -/
def Provider.quiet (provider : Provider) : Provider := fun scope key =>
  match provider scope key with
  | .failed => .unset
  | answer => answer

theorem settings_quiet (provider : Provider) (r : Request) :
    (resolve provider.quiet r).settings = (resolve provider r).settings := by
  refine settings_congr_text fun number key => ?_
  unfold Provider.quiet
  cases provider r.scope key <;> rfl

/-- The settings are the same but for what is looked up under one key. -/
structure AgreeBut (rule key : String) (s s' : RuleSettings) : Prop where
  ruleId : s.ruleId = s'.ruleId
  excludedTypes : key ≠ optionKey rule "excluded_types" → s.excludedTypes = s'.excludedTypes
  excludedMethods :
    key ≠ optionKey rule "excluded_methods" → s.excludedMethods = s'.excludedMethods
  excludedNamespaces :
    key ≠ optionKey rule "excluded_namespaces" → s.excludedNamespaces = s'.excludedNamespaces
  threshold : ∀ name, key ≠ optionKey rule name →
    s.thresholds.find? (·.1 == name) = s'.thresholds.find? (·.1 == name)

theorem find?_threshold_congr {ruleId name : String} {ask ask' : Answers}
    (h : ∀ number, ask number (optionKey ruleId name) = ask' number (optionKey ruleId name))
    {numbered : List ((String × Int) × Nat)} {values values' : List (String × Int)}
    (hvalues : List.Forall₂ (ThresholdSet ruleId ask) numbered values)
    (hvalues' : List.Forall₂ (ThresholdSet ruleId ask') numbered values') :
    values.find? (·.1 == name) = values'.find? (·.1 == name) := by
  induction hvalues generalizing values' with
  | nil =>
      obtain rfl := List.forall₂_nil_left_iff.mp hvalues'
      rfl
  | @cons d v numbered values hv _ ih =>
      -- both lists have the threshold of this default in front
      obtain ⟨v', values', hv', hrest', rfl⟩ := List.forall₂_cons_left_iff.mp hvalues'
      obtain ⟨n, value⟩ := v
      obtain ⟨n', value'⟩ := v'
      obtain ⟨rfl, hread⟩ := hv
      obtain ⟨rfl, hread'⟩ := hv'
      by_cases hname : d.1.1 = name
      · rw [hname] at hread hread'
        rw [h, hread'] at hread
        cases hread
        simp [hname]
      · rw [List.find?_cons_of_neg (by simpa using hname),
          List.find?_cons_of_neg (by simpa using hname)]
        exact ih hrest'

/-- **An answer bears on nothing but what it was asked for.** -/
theorem agreeBut_of_eq_ok {r : Request} {provider provider' : Provider} {key : String}
    (h : ∀ k, k ≠ key → provider r.scope k = provider' r.scope k) {s s' : RuleSettings}
    (hs : (resolve provider r).settings = .ok s) (hs' : (resolve provider' r).settings = .ok s') :
    AgreeBut r.ruleId key s s' := by
  obtain ⟨hid, htypes, hmethods, hnamespaces, hthresholds⟩ :=
    settings_resolveWith_eq_ok_iff.mp hs
  obtain ⟨hid', htypes', hmethods', hnamespaces', hthresholds'⟩ :=
    settings_resolveWith_eq_ok_iff.mp hs'
  constructor
  · rw [hid, hid']
  · intro hkey
    rw [htypes, htypes', h _ hkey.symm]
  · intro hkey
    rw [hmethods, hmethods', h _ hkey.symm]
  · intro hkey
    rw [hnamespaces, hnamespaces', h _ hkey.symm]
  · intro name hkey
    exact find?_threshold_congr (fun _ => h _ hkey.symm) hthresholds hthresholds'

/-! ## Whole requests -/

theorem mem_normal_defaults {r : Request} {d : String × Int} :
    d ∈ r.normal.defaults ↔ d ∈ r.defaults := by
  simp [Request.normal, sortDefaults]

/-- The settings declare every threshold of the request. -/
theorem exists_threshold {r : Request} {ask : Answers} {s : RuleSettings}
    (hs : (resolveWith r ask).settings = .ok s) {d : String × Int} (hd : d ∈ r.defaults) :
    ∃ value, s.threshold d.1 = .ok value := by
  obtain ⟨-, -, -, -, hthresholds⟩ := settings_resolveWith_eq_ok_iff.mp hs
  obtain ⟨i, hi⟩ := List.getElem?_of_mem (mem_normal_defaults.mpr hd)
  have hnumbered : (r.normal.defaults.zipIdx 3)[i]? = some (d, 3 + i) := by
    rw [List.getElem?_zipIdx, hi]
    rfl
  obtain ⟨hlt, hget⟩ := List.getElem?_eq_some_iff.mp hnumbered
  have hlt' : i < s.thresholds.length := hthresholds.length_eq ▸ hlt
  -- its value stands where its default stands in the request
  have hset := hthresholds.get hlt hlt'
  rw [List.get_eq_getElem, List.get_eq_getElem, hget] at hset
  have hfound : (s.thresholds.find? fun entry => entry.1 == d.1).isSome := by
    rw [List.find?_isSome]
    exact ⟨s.thresholds[i], List.getElem_mem hlt', by simpa using hset.1⟩
  obtain ⟨entry, hentry⟩ := Option.isSome_iff_exists.mp hfound
  refine ⟨entry.2, ?_⟩
  simp only [RuleSettings.threshold, RuleSettings.thresholdOr, hentry]

/-- A threshold was read from the answer to its own key. -/
theorem exists_readThreshold_of_threshold {r : Request} {ask : Answers} {s : RuleSettings}
    (hs : (resolveWith r ask).settings = .ok s) {name : String} {value : Int}
    (h : s.threshold name = .ok value) :
    ∃ default number, (name, default) ∈ r.defaults ∧
      readThreshold (ask number (optionKey r.ruleId name)).text? default = .ok value := by
  obtain ⟨-, -, -, -, hthresholds⟩ := settings_resolveWith_eq_ok_iff.mp hs
  unfold RuleSettings.threshold RuleSettings.thresholdOr at h
  split at h
  · next entry hentry =>
      obtain rfl := Except.ok.inj h
      have hname : entry.1 = name := by simpa using List.find?_some hentry
      obtain ⟨i, hi, rfl⟩ := List.mem_iff_getElem.mp (List.mem_of_find?_eq_some hentry)
      have hi' : i < (r.normal.defaults.zipIdx 3).length := hthresholds.length_eq ▸ hi
      obtain ⟨hentry, hread⟩ := hthresholds.get hi' hi
      rw [List.get_eq_getElem, List.get_eq_getElem] at hentry hread
      obtain rfl := hentry.symm.trans hname
      exact ⟨_, _, mem_normal_defaults.mp (List.fst_mem_of_mem_zipIdx (List.getElem_mem hi')),
        hread⟩
  · cases h

/-- Thresholds can be written if the defaults can. -/
theorem isWritable_threshold {r : Request} {ask : Answers} {s : RuleSettings}
    (hs : (resolveWith r ask).settings = .ok s)
    (hdefaults : ∀ d ∈ r.defaults, isWritable d.2 = true) {name : String} {value : Int}
    (h : s.threshold name = .ok value) : isWritable value = true := by
  obtain ⟨default, number, hmem, hread⟩ := exists_readThreshold_of_threshold hs h
  exact isWritable_of_readThreshold (hdefaults _ hmem) hread

theorem exists_settings_resolve_iff {provider : Provider} {r : Request} :
    (∃ s, (resolve provider r).settings = .ok s) ↔
      ∀ d ∈ r.defaults, (provider r.scope (optionKey r.ruleId d.1)).IsUsable := by
  rw [resolve, exists_settings_iff]
  constructor
  · intro h d hd
    obtain ⟨i, hi⟩ := List.getElem?_of_mem (mem_normal_defaults.mpr hd)
    exact h (d, 3 + i) (List.mem_zipIdx_iff_le_and_getElem?_sub.mpr (by simpa using hi))
  · intro h d hd
    exact h d.1 (mem_normal_defaults.mp (List.fst_mem_of_mem_zipIdx hd))

/-- A resolver returns settings if it keeps some or the provider's answers lead to some. -/
theorem exists_resolver_settings_iff {resolver : Resolver} {provider : Provider} {r : Request} :
    (∃ s, (resolver.resolve provider r).1.settings = .ok s) ↔
      (resolver.find? r).isSome ∨ ∃ s, (resolve provider r).settings = .ok s := by
  unfold Resolver.resolve
  cases hfind : resolver.find? r with
  | some kept => simp
  | none =>
      cases hs : (resolve provider r).settings with
      | error fault => simp [hs]
      | ok s => simp [hs]

/-- The threshold with this default, looked up with this number, is as its answer sets it. -/
def SetByAnswer (ruleId : String) (ask : Answers) (d : (String × Int) × Nat)
    (v : String × Int) : Prop :=
  v.1 = d.1.1 ∧ (ask d.2 (optionKey ruleId d.1.1)).Sets d.1.2 v.2

theorem setByAnswer_of_eq_ok {r : Request} {ask : Answers} {s : RuleSettings}
    (h : (resolveWith r ask).settings = .ok s) :
    List.Forall₂ (SetByAnswer r.ruleId ask) (r.normal.defaults.zipIdx 3) s.thresholds := by
  obtain ⟨-, -, -, -, hthresholds⟩ := settings_resolveWith_eq_ok_iff.mp h
  exact hthresholds.imp fun d v hv => ⟨hv.1, sets_of_readThreshold hv.2⟩

/-- **Which requests are settled.** Whatever the answers are, settings come of them if and only
if no threshold is answered with an integer that cannot be read, and then each threshold is the
integer that its answer denotes, or the default if it denotes none. A resolver returns settings
if and only if it keeps some or the provider's answers lead to some. -/
theorem settled_iff_usable (r : Request) :
    (∀ ask : Answers,
      ((∃ s, (resolveWith r ask).settings = .ok s) ↔
        ∀ d ∈ r.normal.defaults.zipIdx 3, (ask d.2 (optionKey r.ruleId d.1.1)).IsUsable) ∧
      ∀ s, (resolveWith r ask).settings = .ok s →
        s.ruleId = r.ruleId ∧
        List.Forall₂ (SetByAnswer r.ruleId ask) (r.normal.defaults.zipIdx 3) s.thresholds) ∧
    ∀ (resolver : Resolver) (provider : Provider),
      (∃ s, (resolver.resolve provider r).1.settings = .ok s) ↔
        (resolver.find? r).isSome ∨
          ∀ d ∈ r.defaults, (provider r.scope (optionKey r.ruleId d.1)).IsUsable := by
  refine ⟨fun ask => ⟨exists_settings_iff, fun s hs => ⟨?_, setByAnswer_of_eq_ok hs⟩⟩, ?_⟩
  · exact (settings_resolveWith_eq_ok_iff.mp hs).1
  · intro resolver provider
    rw [exists_resolver_settings_iff, exists_settings_resolve_iff]

/-- Digits of another script between blanks: the text is usable. -/
theorem settled_iff_usable_digits :
    ∃ s, (Resolver.resolve {} (fun _ _ => .text "\u3000-\u0663\u0660\n")
      ⟨"SEAM020", "src/App.cs", [("cyclomatic_complexity_threshold", 25)]⟩).1.settings =
        .ok s := by
  refine ((settled_iff_usable _).2 _ _).mpr (Or.inr fun d _ text htext _ => ?_)
  cases htext
  exact isReadable_of_short (by decide) (by decide)

/-- **A separator before the digits**: the text is shaped like an integer, cannot be read as
one, and the request is not settled. -/
theorem not_settled_separator :
    (Resolver.resolve {} (fun _ _ => .text "\x1c30")
      ⟨"SEAM020", "src/App.cs", [("cyclomatic_complexity_threshold", 25)]⟩).1.settings =
        .error (.malformed "\x1c30") := by
  have hsort : sortDefaults [("cyclomatic_complexity_threshold", 25)] =
      [("cyclomatic_complexity_threshold", 25)] := List.mergeSort_singleton _
  simp only [Resolver.resolve, Resolver.find?, List.find?_nil, Option.map_none, resolve,
    resolveWith, Request.normal, hsort, resolveThresholds]
  rfl

end SeamLint.Settings
