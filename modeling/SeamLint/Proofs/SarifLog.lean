import SeamLint.Proofs.ReportDocument

set_option autoImplicit false

/-! # References in a log

A log lists the rules that found something and refers to them from every result, by id and by
index. The list is made from the findings without their order (`foundIds`), while the results keep
it, so that the two have to be brought together: the list is strictly increasing
(`foundIds_increasing`), names the rules of the findings (`mem_foundIds_iff`), and has the rule of a
result at the index that the result gives (`getElem?_idxOf_foundIds`). `readLog` takes all this from
the log itself, field by field.
-/

namespace SeamLint.Output

open SeamLint.Code SeamLint.Data SeamLint.Finding SeamLint.Rule SeamLint.Scan

/-! ## Reading a log -/

/-- A result of a log, as far as it refers to something else. -/
structure LogResult where
  ruleId : String
  ruleIndex : Nat
  level : String
  uri : String
  region : Option Span

/-- What a log says: the ids of its rules, its results, whether the run was successful, and the
texts of its notifications. -/
structure Log where
  ruleIds : List String
  results : List LogResult
  successful : Bool
  notifications : List String

/-- Takes a truth value. -/
def readBool : Value → Option Bool
  | .bool b => some b
  | _ => none

/-- Takes the only item of a list. -/
def readSingle {α : Type} (read : Value → Option α) : Value → Option α
  | .list [item] => read item
  | _ => none

/-- Takes what stands under a name that may be left out. -/
def readOptional {α : Type} (name : String) (read : Value → Option α) (v : Value) :
    Option (Option α) :=
  match v.get? name with
  | some item => (read item).map some
  | none => some none

/-- Takes a span from a region. -/
def readRegion (v : Value) : Option Span := do
  return {
    startLine := ← readField "startLine" readInt v
    startColumn := ← readField "startColumn" readInt v
    endLine := ← readField "endLine" readInt v
    endColumn := ← readField "endColumn" readInt v }

/-- Takes something from the only location of a result. -/
def readLocation {α : Type} (read : Value → Option α) : Value → Option α :=
  readField "locations" (readSingle (readField "physicalLocation" read))

/-- Takes a result. -/
def readResult (v : Value) : Option LogResult := do
  return {
    ruleId := ← readField "ruleId" readText v
    ruleIndex := ← readField "ruleIndex" readCount v
    level := ← readField "level" readText v
    uri := ← readLocation (readField "artifactLocation" (readField "uri" readText)) v
    region := ← readLocation (readOptional "region" readRegion) v }

/-- Takes the text of a notification. -/
def readNotification : Value → Option String := readField "message" (readField "text" readText)

/-- Takes a run. -/
def readRun (v : Value) : Option Log := do
  return {
    ruleIds := ← readField "tool"
      (readField "driver" (readField "rules" (readList (readField "id" readText)))) v
    results := ← readField "results" (readList readResult) v
    successful := ← readField "invocations"
      (readSingle (readField "executionSuccessful" readBool)) v
    notifications := ← readField "invocations"
      (readSingle (readField "toolExecutionNotifications" (readList readNotification))) v }

/-- Takes the only run of a log. -/
def readLog : Value → Option Log := readField "runs" (readSingle readRun)

/-- Takes the severities of the findings from the document of a report. -/
def readSeverities : Value → Option (List Severity) :=
  readField "findings" (readList (readField "severity" fun v => (readText v).bind Severity.ofName?))

/-! ## What is read -/

/-- The result for a remark. -/
def resultOf (ids : List String) (x : Remark) : LogResult where
  ruleId := x.finding.ruleId
  ruleIndex := ids.idxOf x.finding.ruleId
  level := sarifLevel x.severity
  uri := sarifUri x.finding.path
  region := if 1 ≤ x.finding.span.startLine then some x.finding.span else none

theorem readLocation_region (ids : List String) (x : Remark) :
    readLocation (readOptional "region" readRegion) (sarifResult ids x) =
      some (if 1 ≤ x.finding.span.startLine then some x.finding.span else none) := by
  show readOptional "region" readRegion (.object (_ :: sarifRegion x.finding)) = _
  unfold sarifRegion
  split
  · rfl
  · rfl

theorem readResult_sarifResult (ids : List String) (x : Remark) :
    readResult (sarifResult ids x) = some (resultOf ids x) := by
  unfold readResult
  rw [readLocation_region]
  rfl

theorem ofName?_name (s : Severity) : Severity.ofName? s.name = some s := by
  cases s <;> decide

theorem sarifValue_eq_ok {r : Report} {severities : Severities} {log : Value}
    (h : sarifValue r severities = .ok log) :
    ∃ remarks rules, r.findings.mapM (remark severities) = .ok remarks ∧
      (foundIds r).mapM describe = .ok rules ∧
      readLog log = some
        { ruleIds := rules.map Descriptor.id
          results := remarks.map (resultOf (foundIds r))
          successful := r.errors.isEmpty
          notifications := r.errors } := by
  obtain ⟨remarks, hremarks, hrest⟩ := bind_eq_ok.mp h
  obtain ⟨rules, hrules, heq⟩ := bind_eq_ok.mp hrest
  cases heq
  refine ⟨remarks, rules, hremarks, hrules, ?_⟩
  have hids : readList (readField "id" readText) (.list (rules.map sarifRule)) =
      some (rules.map Descriptor.id) :=
    readList_map (fun d => (rfl : readField "id" readText (sarifRule d) = some d.id)) rules
  have hresults := readList_map (readResult_sarifResult (foundIds r)) remarks
  have herrors : readList readNotification (.list (r.errors.map sarifNotification)) =
      some r.errors := by
    have hmap := readList_map (g := id)
      (fun error => (rfl : readNotification (sarifNotification error) = some error)) r.errors
    rwa [List.map_id] at hmap
  show (do
    return {
      ruleIds := ← readList (readField "id" readText) (.list (rules.map sarifRule))
      results := ← readList readResult (.list (remarks.map (sarifResult (foundIds r))))
      successful := ← readBool (.bool r.errors.isEmpty)
      notifications := ← readList readNotification (.list (r.errors.map sarifNotification))
      : Log }) = _
  rw [hids, hresults, herrors]
  rfl

theorem readSeverities_of_reportValue {r : Report} {severities : Severities}
    {remarks : List Remark} (hremarks : r.findings.mapM (remark severities) = .ok remarks)
    {doc : Value} (h : reportValue r severities = .ok doc) :
    readSeverities doc = some (remarks.map Remark.severity) := by
  obtain ⟨remarks', hremarks', rfl⟩ := reportValue_eq_ok.mp h
  obtain rfl : remarks = remarks' := Except.ok.inj (hremarks.symm.trans hremarks')
  exact readList_map (fun x => ofName?_name x.severity) remarks

/-! ## The rules of a log -/

theorem foundIds_increasing (r : Report) : (foundIds r).Pairwise (· < ·) := by
  have htrans : ∀ a b c : String, decide (a ≤ b) = true → decide (b ≤ c) = true →
      decide (a ≤ c) = true := by
    intro a b c hab hbc
    exact decide_eq_true (le_trans (of_decide_eq_true hab) (of_decide_eq_true hbc))
  have htotal : ∀ a b : String, (decide (a ≤ b) || decide (b ≤ a)) = true := by
    intro a b
    simpa using le_total a b
  have hle : (foundIds r).Pairwise (· ≤ ·) :=
    (List.pairwise_mergeSort htrans htotal (r.byRule.map Prod.fst)).imp of_decide_eq_true
  have hnodup : (foundIds r).Nodup :=
    (List.mergeSort_perm _ _).nodup_iff.mpr (tallies_byRule r).nodup
  -- sorted and without repetition is strictly sorted
  exact (hle.and hnodup).imp fun ⟨hle, hne⟩ => lt_of_le_of_ne hle hne

theorem mem_foundIds_iff {r : Report} {id : String} :
    id ∈ foundIds r ↔ ∃ f ∈ r.findings, f.ruleId = id :=
  List.mem_mergeSort.trans mem_keys_byRule

/-- The index under which a result looks for its rule has that rule. -/
theorem getElem?_idxOf_foundIds {r : Report} {f : Finding} (hf : f ∈ r.findings) :
    (foundIds r)[(foundIds r).idxOf f.ruleId]? = some f.ruleId :=
  List.getElem?_idxOf (mem_foundIds_iff.mpr ⟨f, hf, rfl⟩)

theorem describe_eq_ok {id : String} {d : Descriptor} :
    describe id = .ok d ↔ descriptor? id = some d := by
  unfold describe
  cases descriptor? id with
  | none => simp
  | some found => simp

theorem id_of_describe {id : String} {d : Descriptor} (h : describe id = .ok d) : d.id = id := by
  have hmatch := List.find?_some (describe_eq_ok.mp h)
  exact beq_iff_eq.mp hmatch

theorem map_id_of_describe {ids : List String} {rules : List Descriptor}
    (h : ids.mapM describe = .ok rules) : rules.map Descriptor.id = ids := by
  have hrules := forall₂_of_mapM_eq_ok.mp h
  clear h
  induction hrules with
  | nil => rfl
  | cons hd _ ih => rw [List.map_cons, ih, id_of_describe hd]

theorem not_mem_sarifUri (path : String) : '\\' ∉ (sarifUri path).toList := by
  unfold sarifUri Text.replace
  rw [String.toList_ofList]
  intro hmem
  obtain ⟨c, -, hc⟩ := List.mem_map.mp hmem
  split at hc
  · cases hc
  · next hne => exact hne hc

/-! ## References -/

/-- Every finding names a rule of the catalogue and has an argument that can be shown for every slot
of its message. -/
def IsWorded (r : Report) : Prop :=
  ∀ f ∈ r.findings, ∃ d, descriptor? f.ruleId = some d ∧ d.template.IsFilled f.arguments

/-- The words of the format for severities. -/
inductive IsLevel : Severity → String → Prop
  | error : IsLevel .error "error"
  | warning : IsLevel .warning "warning"
  | info : IsLevel .info "note"
  | hidden : IsLevel .hidden "none"

theorem isLevel_sarifLevel (s : Severity) : IsLevel s (sarifLevel s) := by
  cases s with
  | error => exact .error
  | warning => exact .warning
  | info => exact .info
  | hidden => exact .hidden

/-- The result is about the finding, whose severity is `s`: it has the rule's id, which is also the
one that the rules of the log have at its index, the level of the severity, the path with slashes
only, and the span if there is a line to point at. -/
structure RefersTo (ids : List String) (f : Finding) (s : Severity) (x : LogResult) : Prop where
  ruleId : x.ruleId = f.ruleId
  rule : ids[x.ruleIndex]? = some f.ruleId
  level : IsLevel s x.level
  slashes : '\\' ∉ x.uri.toList
  uri : x.uri = Text.replace '\\' '/' f.path
  region : ∀ span, x.region = some span ↔ 1 ≤ f.span.startLine ∧ span = f.span

theorem refersTo_resultOf {r : Report} {x : Remark} (hx : x.finding ∈ r.findings) :
    RefersTo (foundIds r) x.finding x.severity (resultOf (foundIds r) x) where
  ruleId := rfl
  rule := getElem?_idxOf_foundIds hx
  level := isLevel_sarifLevel _
  slashes := not_mem_sarifUri _
  uri := rfl
  region span := by
    unfold resultOf
    by_cases hline : 1 ≤ x.finding.span.startLine
    · simp [hline, eq_comm]
    · simp [hline]

theorem succeeds_remarks_iff {r : Report} {severities : Severities} :
    Succeeds (r.findings.mapM (remark severities)) ↔ IsWorded r := by
  rw [succeeds_mapM]
  refine forall₂_congr fun f _ => ?_
  rw [succeeds_remark_iff]
  exact exists_congr fun d => and_congr_left fun _ => describe_eq_ok

theorem IsWorded.rules {r : Report} (h : IsWorded r) : Succeeds ((foundIds r).mapM describe) := by
  refine succeeds_mapM.mpr fun id hid => ?_
  obtain ⟨f, hf, rfl⟩ := mem_foundIds_iff.mp hid
  obtain ⟨d, hd, -⟩ := h f hf
  exact ⟨d, describe_eq_ok.mpr hd⟩

/-- **A report has a log if and only if its findings can be worded.** -/
theorem exists_sarifValue_iff {r : Report} {severities : Severities} :
    (∃ value, sarifValue r severities = .ok value) ↔ IsWorded r := by
  constructor
  · rintro ⟨value, hvalue⟩
    obtain ⟨remarks, -, hremarks, -⟩ := sarifValue_eq_ok hvalue
    exact succeeds_remarks_iff.mp ⟨remarks, hremarks⟩
  · intro h
    obtain ⟨remarks, hremarks⟩ := succeeds_remarks_iff.mpr h
    obtain ⟨rules, hrules⟩ := h.rules
    exact ⟨_, bind_eq_ok.mpr ⟨remarks, hremarks, bind_eq_ok.mpr ⟨rules, hrules, rfl⟩⟩⟩

theorem sarifReport_eq_ok_iff {r : Report} {severities : Severities} {value : Value}
    (h : sarifValue r severities = .ok value) {text : String} :
    sarifReport r severities = .ok text ↔ value.isShowable = true ∧ Json.pretty value = text := by
  rw [← Json.write_eq_ok]
  unfold sarifReport
  rw [h]
  constructor
  · exact fun hwrite => eq_ok_of_mapError hwrite
  · exact fun hwrite => congrArg (Except.mapError OutputFault.unwritable) hwrite

/-- **A log refers to its rules.** With any severities, a report has a log if and only if its
findings can be worded. The ids of the rules of the log are strictly increasing, and they are the
rules of the findings. Its results are those of the findings, one for each and in order, and each
has the id of the rule that found it, an index at which the log has this rule, and the level of the
severity that the document of the report shows for the finding; its address has no backslash, and it
has a region if and only if the finding has a line, which is then its span. The run was successful
if and only if there are no errors, and each error is notified, in order. The log is written if its
numbers can be. -/
theorem log_refers_to_rules (r : Report) (severities : Severities) :
    ((∃ value, sarifValue r severities = .ok value) ↔ IsWorded r) ∧
    ∀ value, sarifValue r severities = .ok value → ∃ doc log shown,
      reportValue r severities = .ok doc ∧
      readLog value = some log ∧ readSeverities doc = some shown ∧
      log.ruleIds.Pairwise (· < ·) ∧
      (∀ id, id ∈ log.ruleIds ↔ ∃ f ∈ r.findings, f.ruleId = id) ∧
      shown.length = r.findings.length ∧
      List.Forall₂ (fun f x => RefersTo log.ruleIds f.1 f.2 x) (r.findings.zip shown) log.results ∧
      (log.successful = true ↔ r.errors = []) ∧ log.notifications = r.errors ∧
      ∀ text, sarifReport r severities = .ok text ↔
        value.isShowable = true ∧ Json.pretty value = text := by
  refine ⟨exists_sarifValue_iff, fun value hvalue => ?_⟩
  obtain ⟨remarks, rules, hremarks, hrules, hlog⟩ := sarifValue_eq_ok hvalue
  obtain ⟨doc, hdoc⟩ : Succeeds (reportValue r severities) :=
    ⟨_, reportValue_eq_ok.mpr ⟨remarks, hremarks, rfl⟩⟩
  rw [map_id_of_describe hrules] at hlog
  have hfindings := map_finding_of_remarks hremarks
  refine ⟨doc, _, _, hdoc, hlog, readSeverities_of_reportValue hremarks hdoc,
    foundIds_increasing r, fun id => mem_foundIds_iff, ?_, ?_, List.isEmpty_iff, rfl,
    fun text => sarifReport_eq_ok_iff hvalue⟩
  · rw [← hfindings, List.length_map, List.length_map]
  · -- both lists come from the remarks, one by one
    have hzip : r.findings.zip (remarks.map Remark.severity) =
        remarks.map fun x => (x.finding, x.severity) := by
      rw [← hfindings, List.zip_map']
    rw [hzip, List.forall₂_map_left_iff, List.forall₂_map_right_iff, List.forall₂_same]
    intro x hx
    exact refersTo_resultOf (hfindings ▸ List.mem_map_of_mem hx)

/-- A report with two rules that take turns, not in the order of their ids, a path with a backslash,
a finding without a line, and an error. -/
def mixedReport : Report where
  findings :=
    [⟨"SEAM006", "src\\App.cs", ⟨3, 5, 3, 19⟩, []⟩, ⟨"SEAM001", "src/App.cs", {}, [.text "Clock"]⟩,
     ⟨"SEAM006", "src/App.cs", ⟨7, 1, 8, 2⟩, []⟩]
  trees := 2
  errors := ["bad.json: not read"]

theorem log_refers_to_rules_mixed :
    IsWorded mixedReport ∧ ∃ value log first second third,
      sarifValue mixedReport [("SEAM001", .hidden)] = .ok value ∧ readLog value = some log ∧
      log.ruleIds.Pairwise (· < ·) ∧ log.results = [first, second, third] ∧
      log.ruleIds[first.ruleIndex]? = some "SEAM006" ∧ first.level = "note" ∧
      first.uri = "src/App.cs" ∧ first.region = some ⟨3, 5, 3, 19⟩ ∧
      log.ruleIds[second.ruleIndex]? = some "SEAM001" ∧ second.level = "none" ∧
      second.region = none ∧ log.ruleIds[third.ruleIndex]? = some "SEAM006" ∧
      log.successful ≠ true ∧ log.notifications = ["bad.json: not read"] := by
  have hworded : IsWorded mixedReport := by
    simp only [IsWorded, mixedReport, List.forall_mem_cons]
    refine ⟨⟨_, rfl, ?_⟩, ⟨_, rfl, ?_⟩, ⟨_, rfl, ?_⟩, List.forall_mem_nil _⟩
    · exact isFilled_of_fits rfl (List.forall_mem_nil _)
    · exact isFilled_of_fits rfl (List.forall_mem_singleton.mpr rfl)
    · exact isFilled_of_fits rfl (List.forall_mem_nil _)
  obtain ⟨hexists, hlogs⟩ := log_refers_to_rules mixedReport [("SEAM001", .hidden)]
  obtain ⟨value, hvalue⟩ := hexists.mpr hworded
  obtain ⟨doc, log, shown, hdoc, hlog, hshown, hincreasing, -, -, hresults, hsuccessful,
    hnotifications, -⟩ := hlogs value hvalue
  have hseverities : (reportValue mixedReport [("SEAM001", .hidden)]).toOption.bind readSeverities =
      some [.info, .hidden, .info] := rfl
  rw [hdoc] at hseverities
  obtain rfl : shown = [.info, .hidden, .info] := Option.some.inj (hshown.symm.trans hseverities)
  obtain ⟨first, rest, hfirst, hrest, heq⟩ := List.forall₂_cons_left_iff.mp hresults
  obtain ⟨second, last, hsecond, hlast, rfl⟩ := List.forall₂_cons_left_iff.mp hrest
  obtain ⟨third, others, hthird, hothers, rfl⟩ := List.forall₂_cons_left_iff.mp hlast
  obtain rfl := List.forall₂_nil_left_iff.mp hothers
  have huri : Text.replace '\\' '/' "src\\App.cs" = "src/App.cs" := by decide +kernel
  have hnote (word : String) (h : IsLevel .info word) : word = "note" := by cases h; rfl
  have hnone (word : String) (h : IsLevel .hidden word) : word = "none" := by cases h; rfl
  refine ⟨hworded, value, log, first, second, third, hvalue, hlog, hincreasing, heq, hfirst.rule,
    hnote _ hfirst.level, hfirst.uri.trans huri, ?_, hsecond.rule, hnone _ hsecond.level, ?_,
    hthird.rule, ?_, hnotifications⟩
  · exact (hfirst.region _).mpr ⟨show (1 : Int) ≤ 3 by decide, rfl⟩
  · refine Option.eq_none_iff_forall_ne_some.mpr fun span hspan => ?_
    exact absurd ((hsecond.region span).mp hspan).1 (show ¬(1 : Int) ≤ 0 by decide)
  · exact fun hsuccess => List.cons_ne_nil _ _ (hsuccessful.mp hsuccess)

end SeamLint.Output
