import SeamLint.Command.Run
import SeamLint.Proofs.ConfigShape
import SeamLint.Proofs.Exclusions

set_option autoImplicit false

/-! # The exit code and the report

How serious a finding is is decided twice: for the exit code, where a rule without a severity counts
as a warning, and for the report, where it counts as the catalogue has it. Under an accepted
configuration every rule of the catalogue has a severity (`Config.severities_of_hasSeverities`), and
every finding of the catalogue can be worded (`remark_of_fromCatalog`), so both say the same: the
exit code tells whether the report shows a finding that is serious enough
(`exitCode_agrees_with_report`).
-/

namespace SeamLint.Scan

open SeamLint.Data SeamLint.Finding SeamLint.Rule SeamLint.Settings

/-! ## Severities of an accepted configuration -/

/-- The results of a list of attempts are those of its elements. -/
theorem mem_iff_of_mapM_eq_ok {ε α β : Type} {next : α → Except ε β} {as : List α} {bs : List β}
    (h : as.mapM next = .ok bs) {b : β} : b ∈ bs ↔ ∃ a ∈ as, next a = .ok b := by
  induction as generalizing bs with
  | nil =>
    cases h
    simp
  | cons a as ih =>
    rw [List.mapM_cons] at h
    obtain ⟨first, hfirst, hrest⟩ := bind_eq_ok.mp h
    obtain ⟨others, hothers, heq⟩ := bind_eq_ok.mp hrest
    cases heq
    simp only [List.mem_cons, exists_eq_or_imp, ih hothers, hfirst, Except.ok.injEq]
    exact or_congr_left eq_comm

namespace Config

variable {c : Config}

/-- A severity is only read from entries that were checked. -/
theorem succeeds_ruleSeverity (h : c.HasSeverities) (id : String) (byDefault : Severity) :
    Succeeds (c.ruleSeverity id byDefault) := by
  obtain ⟨fields, hfields⟩ := succeeds_severityOverrides.mpr ⟨h.group, h.table⟩
  refine (succeeds_keySeverity hfields).mpr fun v hfound => ?_
  exact h.named fields _ hfields (mem_of_find?_eq_some hfound) v hfound

/-- **An accepted configuration has a severity for every rule of the catalogue.** -/
theorem severities_of_hasSeverities (h : c.HasSeverities) :
    ∃ severities, c.severities = .ok severities ∧
      ∀ d ∈ descriptors, ∃ s, Severities.get? severities d.id = some s := by
  have hsucceeds : Succeeds c.severities := by
    refine succeeds_mapM.mpr fun d _ => ?_
    obtain ⟨s, hs⟩ := succeeds_ruleSeverity h d.id d.severity
    exact ⟨(d.id, s), bind_eq_ok.mpr ⟨s, hs, rfl⟩⟩
  obtain ⟨severities, hseverities⟩ := hsucceeds
  refine ⟨severities, hseverities, fun d hd => ?_⟩
  -- the entry made for the rule is there, though the first one with its id counts
  obtain ⟨entry, hentry⟩ := succeeds_mapM.mp ⟨severities, hseverities⟩ d hd
  obtain ⟨s, hs, heq⟩ := bind_eq_ok.mp hentry
  have hmem := (mem_iff_of_mapM_eq_ok hseverities).mpr ⟨d, hd, hentry⟩
  have hid : entry.1 = d.id := by rw [← Except.ok.inj heq]
  have hfound : (List.find? (fun entry => entry.1 == d.id) severities).isSome = true :=
    List.find?_isSome.mpr ⟨entry, hmem, beq_iff_eq.mpr hid⟩
  obtain ⟨found, hfound⟩ := Option.isSome_iff_exists.mp hfound
  exact ⟨found.2, congrArg (Option.map Prod.snd) hfound⟩

end Config

end SeamLint.Scan

namespace SeamLint.Rule

open SeamLint.Finding

/-! ## Wording findings -/

/-- The part can be filled with so many arguments. -/
def Part.fits (count : Nat) : Part → Bool
  | .text _ => true
  | .slot index => index < count

/-- Every slot of the template has an argument that can be shown. -/
def Template.IsFilled (template : Template) (arguments : List Argument) : Prop :=
  ∀ index, .slot index ∈ template → ∃ a, arguments[index]? = some a ∧ a.isShowable = true

theorem Part.fill_slot_eq_ok {arguments : List Argument} {index : Nat} {text : String} :
    Part.fill arguments (.slot index) = .ok text ↔
      ∃ a, arguments[index]? = some a ∧ a.isShowable = true ∧ a.shown = text := by
  cases hfound : arguments[index]? with
  | none => simp [Part.fill, hfound]
  | some a =>
    simp only [Part.fill, hfound, Option.some.injEq, exists_eq_left', ← Argument.written_eq_ok]
    cases a.written <;> simp [Except.mapError]

/-- **A template can be filled if and only if every slot has an argument that can be shown.** -/
theorem succeeds_fill_iff {template : Template} {arguments : List Argument} :
    Scan.Succeeds (template.fill arguments) ↔ template.IsFilled arguments := by
  have hparts : Scan.Succeeds (template.fill arguments) ↔
      Scan.Succeeds (template.mapM (Part.fill arguments)) := by
    unfold Template.fill
    rw [Scan.succeeds_bind]
    exact ⟨fun ⟨texts, htexts, _⟩ => ⟨texts, htexts⟩,
      fun ⟨texts, htexts⟩ => ⟨texts, htexts, Scan.succeeds_ok _⟩⟩
  rw [hparts, Scan.succeeds_mapM]
  constructor
  · intro h index hslot
    obtain ⟨text, htext⟩ := h _ hslot
    obtain ⟨a, ha, hshowable, -⟩ := Part.fill_slot_eq_ok.mp htext
    exact ⟨a, ha, hshowable⟩
  · intro h part hpart
    cases part with
    | text s => exact Scan.succeeds_ok s
    | slot index =>
      obtain ⟨a, ha, hshowable⟩ := h index hpart
      exact ⟨_, Part.fill_slot_eq_ok.mpr ⟨a, ha, hshowable, rfl⟩⟩

theorem isFilled_of_fits {template : Template} {arguments : List Argument}
    (h : template.all (Part.fits arguments.length) = true)
    (hshowable : ∀ a ∈ arguments, a.isShowable = true) : template.IsFilled arguments := by
  intro index hslot
  have hindex : index < arguments.length := of_decide_eq_true (List.all_eq_true.mp h _ hslot)
  exact ⟨_, List.getElem?_eq_getElem hindex, hshowable _ (List.getElem_mem hindex)⟩

/-- Every message of the catalogue has at most as many slots as its findings have arguments. -/
theorem catalog_templates_fit :
    List.Forall₂ (fun r form => r.descriptor.template.all (Part.fits form.length) = true) catalog
      argumentForms := by
  refine List.forall₂_iff_zip.mpr ⟨rfl, fun {r form} h => ?_⟩
  have hall : ((catalog.zip argumentForms).all fun p =>
      p.1.descriptor.template.all (Part.fits p.2.length)) = true := by decide
  exact List.all_eq_true.mp hall (r, form) h

/-- The message of a finding of the catalogue has no slot without an argument. -/
theorem fits_of_mem_catalog {r : Rule} (hr : r ∈ catalog) {context : Context}
    {n : Code.Node} {f : Finding} (hfound : r.evaluate context n = .ok (some f)) :
    r.descriptor.template.all (Part.fits f.arguments.length) = true := by
  obtain ⟨i, hi, rfl⟩ := List.mem_iff_getElem.mp hr
  have hi' : i < argumentForms.length := catalog_findsInForm.length_eq ▸ hi
  obtain ⟨-, -, hform⟩ := catalog_findsInForm.get hi hi' context n f hfound
  have hlength : (argumentForms.get ⟨i, hi'⟩).length = f.arguments.length := by
    rw [← hform, List.length_map]
  have hfits := catalog_templates_fit.get hi hi'
  rwa [hlength] at hfits

theorem descriptor?_of_mem_catalog {r : Rule} (hr : r ∈ catalog) :
    descriptor? r.id = some r.descriptor := by
  have hmem : r.descriptor ∈ descriptors := List.mem_map_of_mem hr
  have hfound : (descriptor? r.id).isSome = true :=
    List.find?_isSome.mpr ⟨r.descriptor, hmem, beq_iff_eq.mpr rfl⟩
  obtain ⟨d, hd⟩ := Option.isSome_iff_exists.mp hfound
  obtain ⟨s, hs, rfl⟩ := List.mem_map.mp (List.mem_of_find?_eq_some hd)
  have hmatch := List.find?_some hd
  have hid : s.id = r.id := beq_iff_eq.mp hmatch
  rw [hd, eq_of_id_eq hs hr hid]

end SeamLint.Rule

namespace SeamLint.Output

open SeamLint.Data SeamLint.Finding SeamLint.Rule

/-- **Every finding of the catalogue that can be shown can be worded**, and the remark about it is
as serious as the severities have it. -/
theorem remark_of_fromCatalog {f : Finding} (hf : FromCatalog f) (hshowable : f.isShowable = true)
    (severities : Severities) :
    ∃ d ∈ descriptors, d.id = f.ruleId ∧ ∃ message,
      remark severities f = .ok ⟨f, d, severityOf severities d, message⟩ := by
  obtain ⟨r, hr, context, n, hfound⟩ := hf
  have hid : f.ruleId = r.id := signs_of_mem_catalog hr context n f hfound
  obtain ⟨message, hmessage⟩ := succeeds_fill_iff.mpr
    (isFilled_of_fits (fits_of_mem_catalog hr hfound) (List.all_eq_true.mp hshowable))
  have hdescribe : describe f.ruleId = .ok r.descriptor := by
    unfold describe
    rw [hid, descriptor?_of_mem_catalog hr]
  refine ⟨r.descriptor, List.mem_map_of_mem hr, hid.symm, message, ?_⟩
  refine Scan.bind_eq_ok.mpr ⟨r.descriptor, hdescribe, Scan.bind_eq_ok.mpr ⟨message, ?_, rfl⟩⟩
  rw [hmessage]
  rfl

/-! ## What a report shows -/

/-- The report, as an object, lists a finding whose severity is at least as serious as the
threshold. -/
def ShowsAtLeast (threshold : Severity) (rendered : Value) : Prop :=
  ∃ findings shown s, rendered.get? "findings" = some (.list findings) ∧ shown ∈ findings ∧
    shown.get? "severity" = some (.text (Severity.name s)) ∧ threshold.rank ≤ s.rank

theorem name_injective {s s' : Severity} (h : s.name = s'.name) : s = s' := by
  cases s <;> cases s' <;> first | rfl | exact absurd h (by decide)

theorem get?_remarkValue (r : Remark) :
    (remarkValue r).get? "severity" = some (.text r.severity.name) := rfl

/-- A report shows the severities of its remarks. -/
theorem showsAtLeast_iff {report : Report} {severities : Severities} {rendered : Value}
    (h : reportValue report severities = .ok rendered) {threshold : Severity} :
    ShowsAtLeast threshold rendered ↔
      ∃ f ∈ report.findings, ∃ r, remark severities f = .ok r ∧
        threshold.rank ≤ r.severity.rank := by
  unfold reportValue at h
  obtain ⟨remarks, hremarks, heq⟩ := Scan.bind_eq_ok.mp h
  have hlist : rendered.get? "findings" = some (.list (remarks.map remarkValue)) := by
    rw [← Except.ok.inj heq]
    rfl
  constructor
  · rintro ⟨findings, shown, s, hfindings, hshown, hseverity, hrank⟩
    -- what is listed are the remarks, and a severity can be told from its name
    cases hlist.symm.trans hfindings
    obtain ⟨r, hr, rfl⟩ := List.mem_map.mp hshown
    obtain ⟨f, hf, hremark⟩ := (Scan.mem_iff_of_mapM_eq_ok hremarks).mp hr
    have hname : r.severity.name = s.name := by
      have htext := (get?_remarkValue r).symm.trans hseverity
      exact Value.text.inj (Option.some.inj htext)
    rw [← name_injective hname] at hrank
    exact ⟨f, hf, r, hremark, hrank⟩
  · rintro ⟨f, hf, r, hremark, hrank⟩
    have hr : r ∈ remarks := (Scan.mem_iff_of_mapM_eq_ok hremarks).mpr ⟨f, hf, hremark⟩
    exact ⟨_, remarkValue r, r.severity, hlist, List.mem_map_of_mem hr, get?_remarkValue r, hrank⟩

end SeamLint.Output

namespace SeamLint.Scan

open SeamLint.Code SeamLint.Data SeamLint.Finding SeamLint.Rule

/-! ## Configurations that were made -/

theorem Config.isAccepted_of_ofValue {overrides : Value} {source : Option String} {config : Config}
    (h : Config.ofValue overrides source = .ok config) : config.IsAccepted := by
  unfold Config.ofValue at h
  obtain ⟨fields, -, hrest⟩ := bind_eq_ok.mp h
  obtain ⟨_, hvalidate, heq⟩ := bind_eq_ok.mp hrest
  cases heq
  exact Config.succeeds_validate.mp ⟨_, hvalidate⟩

theorem Config.mem_catalog_of_engine {config : Config} {e : Engine} (h : config.engine = .ok e) :
    ∀ r ∈ e.rules, r ∈ catalog := by
  unfold Config.engine at h
  obtain ⟨rules, hrules, hrest⟩ := bind_eq_ok.mp h
  obtain ⟨options, -, heq⟩ := bind_eq_ok.mp hrest
  cases heq
  unfold Config.rules selectRules at hrules
  obtain ⟨enabled, -, hrest⟩ := bind_eq_ok.mp hrules
  obtain ⟨disabled, -, hrest⟩ := bind_eq_ok.mp hrest
  obtain ⟨on, -, hrest⟩ := bind_eq_ok.mp hrest
  obtain ⟨off, -, heq⟩ := bind_eq_ok.mp hrest
  cases heq
  intro r hr
  exact (List.mem_filter.mp hr).1

/-- What an engine reports was found by one of its rules and can be shown. -/
theorem listed_of_report {e : Engine} (hrules : ∀ r ∈ e.rules, r ∈ catalog) {trees : List Tree}
    {report : Report} (h : e.report trees = .ok report) :
    ∀ f ∈ report.findings, FromCatalog f ∧ f.isShowable = true := by
  obtain ⟨hanalyses, rfl⟩ := report_eq_ok_iff.mp h
  intro f hf
  obtain ⟨p, hp, hfound⟩ := List.mem_flatMap.mp ((sortFindings_perm _).mem_iff.mp hf)
  obtain ⟨t, ht, rfl⟩ := List.mem_map.mp hp
  obtain ⟨q, hq⟩ := hanalyses t ht
  have hshowable := (listed_eq_ok_iff.mp hq).2.1
  exact ⟨fromCatalog_of_mem_analyze hrules hfound,
    hshowable f ((sortFindings_perm _).mem_iff.mp hfound)⟩

theorem listed_of_scanLoaded {loading : Loading} {config : Config} {report : Report}
    (h : scanLoaded loading config = .ok report) :
    ∀ f ∈ report.findings, FromCatalog f ∧ f.isShowable = true := by
  unfold scanLoaded at h
  cases hstopped : loading.stopped with
  | some fault =>
    rw [hstopped] at h
    cases h
  | none =>
    rw [hstopped] at h
    obtain ⟨e, hengine, hrest⟩ := bind_eq_ok.mp h
    obtain ⟨inner, hinner, heq⟩ := bind_eq_ok.mp hrest
    have hrules := Config.mem_catalog_of_engine (eq_ok_of_mapError hengine)
    have hreport : e.report loading.trees = .ok inner := eq_ok_of_mapError hinner
    cases heq
    intro f hf
    exact listed_of_report hrules hreport f hf

end SeamLint.Scan

namespace SeamLint.Command

open SeamLint.Code SeamLint.Data SeamLint.Files SeamLint.Finding SeamLint.Output SeamLint.Rule
open SeamLint.Scan

/-! ## The exit code -/

/-- The exit code tells whether the report shows a finding that is serious enough. -/
structure Agrees (code : Nat) (threshold : Severity) (rendered : Value) : Prop where
  findings : code = 2 ↔ ShowsAtLeast threshold rendered
  clean : code = 0 ↔ ¬ShowsAtLeast threshold rendered

section Agreement

variable {report : Report} (severities : Severities)
  (hlisted : ∀ f ∈ report.findings, FromCatalog f ∧ f.isShowable = true)

include hlisted

theorem succeeds_remarks : Succeeds (report.findings.mapM (remark severities)) := by
  refine succeeds_mapM.mpr fun f hf => ?_
  obtain ⟨hcatalog, hshowable⟩ := hlisted f hf
  obtain ⟨d, -, -, message, hremark⟩ := remark_of_fromCatalog hcatalog hshowable severities
  exact ⟨_, hremark⟩

theorem succeeds_reportValue : Succeeds (reportValue report severities) := by
  obtain ⟨remarks, hremarks⟩ := succeeds_remarks severities hlisted
  exact ⟨_, bind_eq_ok.mpr ⟨remarks, hremarks, rfl⟩⟩

/-- Both ways to a severity meet where the severities are complete. -/
theorem exceeds_iff (hcomplete : ∀ d ∈ descriptors, ∃ s, severities.get? d.id = some s)
    {threshold : Severity} :
    report.exceeds severities threshold = true ↔
      ∃ f ∈ report.findings, ∃ r, remark severities f = .ok r ∧
        threshold.rank ≤ r.severity.rank := by
  unfold Report.exceeds
  rw [List.any_eq_true]
  refine exists_congr fun f => and_congr_right fun hf => ?_
  obtain ⟨hcatalog, hshowable⟩ := hlisted f hf
  obtain ⟨d, hd, hid, message, hremark⟩ := remark_of_fromCatalog hcatalog hshowable severities
  -- a severity is given, so neither way falls back to its own default
  obtain ⟨s, hs⟩ := hcomplete d hd
  have hgiven : (severities.get? f.ruleId).getD .warning = s := by rw [← hid, hs]; rfl
  have hshown : severityOf severities d = s := by unfold severityOf; rw [hs]; rfl
  rw [hgiven, hremark]
  constructor
  · intro hreaches
    refine ⟨_, rfl, ?_⟩
    rw [hshown]
    exact of_decide_eq_true hreaches
  · rintro ⟨r, hr, hrank⟩
    cases hr
    rw [hshown] at hrank
    exact decide_eq_true hrank

theorem agrees_exitCode (hcomplete : ∀ d ∈ descriptors, ∃ s, severities.get? d.id = some s)
    (threshold : Severity) :
    ∃ rendered, reportValue report severities = .ok rendered ∧
      (rendered.isShowable = true → jsonReport report severities = .ok (Json.pretty rendered)) ∧
      Agrees (exitCode report severities threshold) threshold rendered := by
  obtain ⟨rendered, hrendered⟩ := succeeds_reportValue severities hlisted
  have hjson (hshowable : rendered.isShowable = true) :
      jsonReport report severities = .ok (Json.pretty rendered) := by
    refine bind_eq_ok.mpr ⟨rendered, hrendered, ?_⟩
    rw [Json.write, if_pos hshowable]
    rfl
  have hagrees : report.exceeds severities threshold = true ↔ ShowsAtLeast threshold rendered := by
    rw [exceeds_iff severities hlisted hcomplete, showsAtLeast_iff hrendered]
  refine ⟨rendered, hrendered, hjson, ?_⟩
  unfold exitCode
  by_cases hexceeds : report.exceeds severities threshold = true
  · have hshows := hagrees.mp hexceeds
    rw [if_pos hexceeds]
    exact ⟨iff_of_true rfl hshows, iff_of_false nofun (not_not.mpr hshows)⟩
  · have hshows := mt hagrees.mpr hexceeds
    rw [if_neg hexceeds]
    exact ⟨iff_of_false nofun hshows, iff_of_true rfl hshows⟩

end Agreement

/-- Scanning what was loaded ends with the exit code if every step on the way succeeds. -/
theorem reportLoaded_eq_ok {console : Console} {d disk : Disk} {request : ScanRequest}
    {config : Config} {loading : Loading} {report : Report} {severities : Severities}
    {threshold : Severity} {format text printed : String}
    (hscan : scanLoaded loading config = .ok report)
    (hseverities : config.severities = .ok severities) (hformat : config.reportFormat = .ok format)
    (htext : formatReport console ((given? request.format).getD format) report severities
      (request.color && (given? request.output).isNone) = .ok text)
    (hdeliver : deliver d request.output text = .ok (printed, disk))
    (hthreshold : config.failOn = .ok threshold) :
    reportLoaded console d request config loading =
      .ok (exitCode report severities threshold, printed, disk) := by
  refine bind_eq_ok.mpr ⟨report, hscan, bind_eq_ok.mpr ⟨severities, ?_, ?_⟩⟩
  · rw [hseverities]
    rfl
  refine bind_eq_ok.mpr ⟨format, ?_, bind_eq_ok.mpr ⟨text, ?_, ?_⟩⟩
  · rw [hformat]
    rfl
  · rw [htext]
    rfl
  refine bind_eq_ok.mpr ⟨(printed, disk), hdeliver, bind_eq_ok.mpr ⟨threshold, ?_, rfl⟩⟩
  rw [hthreshold]
  rfl

/-- **The exit code agrees with the report.** An accepted configuration has a severity for every
rule of the catalogue, and a severity that makes a run fail. Every report that rules of the
catalogue come to is an object, whose text is the JSON form unless it holds an integer that cannot
be written. The exit code for the report is 2 if the object lists a finding that is at least as
serious, and 0 otherwise. A scan under the configuration has this exit code on every console and in
whatever form the report is written, if it can be written at all. -/
theorem exitCode_agrees_with_report {overrides : Value} {source : Option String} {config : Config}
    (hconfig : Config.ofValue overrides source = .ok config) :
    ∃ severities threshold format, config.severities = .ok severities ∧
      (∀ d ∈ descriptors, ∃ s, severities.get? d.id = some s) ∧
      config.failOn = .ok threshold ∧ config.reportFormat = .ok format ∧
      (∀ (e : Engine) (trees : List Tree) (report : Report), (∀ r ∈ e.rules, r ∈ catalog) →
        e.report trees = .ok report →
        ∃ rendered, reportValue report severities = .ok rendered ∧
          (rendered.isShowable = true → jsonReport report severities = .ok (Json.pretty rendered)) ∧
          Agrees (exitCode report severities threshold) threshold rendered) ∧
      ∀ (console : Console) (d : Disk) (request : ScanRequest) (report : Report)
        (text printed : String) (disk : Disk),
        chooseConfig d request.config (request.paths.head?.getD ".") = .ok config →
        scanPaths d request.paths config = .ok report →
        formatReport console ((given? request.format).getD format) report severities
          (request.color && (given? request.output).isNone) = .ok text →
        deliver d request.output text = .ok (printed, disk) →
        ∃ rendered code, reportValue report severities = .ok rendered ∧
          (rendered.isShowable = true → jsonReport report severities = .ok (Json.pretty rendered)) ∧
          (runScan console d request).result = .ok code ∧ Agrees code threshold rendered := by
  have haccepted := Config.isAccepted_of_ofValue hconfig
  obtain ⟨severities, hseverities, hcomplete⟩ :=
    Config.severities_of_hasSeverities haccepted.severities
  obtain ⟨threshold, hthreshold⟩ :=
    Config.succeeds_failOn.mpr ⟨haccepted.reporting.group, haccepted.reporting.failOn⟩
  obtain ⟨format, hformat⟩ := Config.succeeds_reportFormat.mpr
    ⟨haccepted.reporting.group, haccepted.reporting.showable⟩
  refine ⟨severities, threshold, format, hseverities, hcomplete, hthreshold, hformat, ?_, ?_⟩
  · intro e trees report hrules hreport
    exact agrees_exitCode severities (listed_of_report hrules hreport) hcomplete threshold
  · intro console d request report text printed disk hchoose hscan htext hdeliver
    have hloaded := reportLoaded_eq_ok hscan hseverities hformat htext hdeliver hthreshold
    have hresult : (runScan console d request).result =
        .ok (exitCode report severities threshold) := by
      unfold runScan
      rw [hchoose]
      simp only [hloaded]
    obtain ⟨rendered, hrendered, hjson, hagrees⟩ :=
      agrees_exitCode severities (listed_of_scanLoaded hscan) hcomplete threshold
    exact ⟨rendered, _, hrendered, hjson, hresult, hagrees⟩

/-- A static field is a warning, but not where the settings say that it is worth no more than a
note: the report shows it as one, and the exit code is zero. -/
theorem exitCode_agrees_with_report_note :
    let overrides : Value :=
      .object [field "rules" (.object [field "severities" (.object
        [field staticMutableField.id (.text "INFO")])])]
    let e : Engine := ⟨[staticMutableField], fun _ _ => .unset, {}⟩
    staticMutableField.descriptor.severity = .warning ∧
    ∃ config severities report f rendered, Config.ofValue overrides none = .ok config ∧
      config.failOn = .ok .warning ∧ config.severities = .ok severities ∧
      e.report [cacheTree] = .ok report ∧ report.findings = [f] ∧
      reportValue report severities = .ok rendered ∧
      exitCode report severities .warning = 0 ∧ ¬ShowsAtLeast .warning rendered := by
  intro overrides e
  have hconfig : ∃ config, Config.ofValue overrides none = .ok config ∧
      config.failOn = .ok .warning ∧ ∃ severities, config.severities = .ok severities ∧
        severities.get? "SEAM013" = some .info := ⟨_, rfl, rfl, _, rfl, rfl⟩
  obtain ⟨config, hconfig, hfail, severities, hseverities, hinfo⟩ := hconfig
  have hfound : ∃ f, staticMutableField.evaluate ⟨cacheTree, {}, .ok { ruleId := "SEAM013" }⟩
      cacheVariable = .ok (some f) ∧ f.ruleId = "SEAM013" ∧ f.isShowable = true :=
    ⟨_, rfl, rfl, rfl⟩
  obtain ⟨f, hf, hid, hshowable⟩ := hfound
  have hfindings : (e.scan [cacheTree]).findings = [f] := scan_cacheTree settings_unset_cacheTree hf
  have hreport : e.report [cacheTree] = .ok (e.scan [cacheTree]) := by
    have hvisit : staticMutableField.evaluate (e.context cacheTree staticMutableField)
        cacheVariable = .ok (some f) := by
      rw [← hf]
      exact congrArg (staticMutableField.evaluate · cacheVariable)
        (context_eq_under settings_unset_cacheTree)
    rw [report_of_single_visit (n := cacheVariable) rfl hvisit]
    simp [hshowable]
  have hcode : exitCode (e.scan [cacheTree]) severities .warning = 0 := by
    unfold exitCode Report.exceeds
    rw [hfindings]
    simp [hid, hinfo, Severity.reaches, Severity.rank, exitOk]
  have hrules : ∀ r ∈ e.rules, r ∈ catalog :=
    List.forall_mem_singleton.mpr staticMutableField_mem_catalog
  obtain ⟨severities', threshold, -, hseverities', -, hfail', -, hengine, -⟩ :=
    exitCode_agrees_with_report hconfig
  cases hseverities.symm.trans hseverities'
  cases hfail.symm.trans hfail'
  obtain ⟨rendered, hrendered, -, hagrees⟩ := hengine e [cacheTree] _ hrules hreport
  exact ⟨rfl, config, severities, _, f, rendered, hconfig, hfail, hseverities, hreport, hfindings,
    hrendered, hcode, hagrees.clean.mp hcode⟩

end SeamLint.Command
