import SeamLint.Output.Sarif
import SeamLint.Proofs.CatalogTotality
import SeamLint.Proofs.ExitCode
import SeamLint.Proofs.JsonRoundTrip
import SeamLint.Proofs.RuleListing
import SeamLint.Proofs.VerbatimText

set_option autoImplicit false

/-! # Reports as documents

`readReport` takes a report from its document, field by field. It gives back what was rendered
(`readReport_of_reportValue`), and since the numbers in what the catalogue finds are those of the
nodes that it was shown, the document is also read back from its text (`isKept_of_reportValue`,
`isKept_of_sarifValue`). A scan with rules of the catalogue can therefore be rendered in both
formats, and nothing of it is lost (`report_recovered_from_document`).
-/

namespace SeamLint.Rule

open SeamLint.Code SeamLint.Finding

/-! ## Where findings are -/

/-- The finding is at the node or at its name. -/
def IsAt (n : Node) (f : Finding) : Prop := f.span = n.span ∨ f.span = n.identifierSpan

theorem yields_at {d : Descriptor} {context : Context} {n : Node} {arguments : List Argument} :
    Yields (IsAt n) (pure (some (d.found context n.span arguments))) :=
  yields_found (Or.inl rfl)

theorem yields_atName {d : Descriptor} {context : Context} {n : Node}
    {arguments : List Argument} :
    Yields (IsAt n) (pure (some (d.found context n.identifierSpan arguments))) :=
  yields_found (Or.inr rfl)

/-- **Every rule of the catalogue finds things at the node that it is shown, or at its name.** -/
theorem catalog_findsAt : ∀ r ∈ catalog, ∀ (context : Context) (n : Node),
    Yields (IsAt n) (r.evaluate context n) := by
  rw [← List.forall_iff_forall_mem]
  unfold catalog
  repeat' apply And.intro
  all_goals
    intro context n
    simp only [directInstantiation, concreteParameter, serviceLocator, staticCall, clockRead,
      clockProperty, systemClock, guidCreation, environmentVariable, staticProperty,
      nonVirtualMethod, largePrivateMethod, staticMutableField, ambientContext,
      fileSystemAccess, httpClientCreation, databaseAccess, processStart, sharedRandom,
      highComplexity]
    repeat' first
      | exact yields_none
      | exact yields_at
      | exact yields_atName
      | refine yields_bind fun _ => ?_
      | split

end SeamLint.Rule

namespace SeamLint.Scan

open SeamLint.Code SeamLint.Finding SeamLint.Number SeamLint.Rule SeamLint.Settings

/-- The numbers of the span can be written. -/
structure Span.IsWritable (s : Span) : Prop where
  startLine : isWritable s.startLine = true
  startColumn : isWritable s.startColumn = true
  endLine : isWritable s.endLine = true
  endColumn : isWritable s.endColumn = true

/-- The numbers of a tree can be written: those that it gives, and those that rules measure. -/
structure Tree.IsWritable (t : Tree) : Prop where
  spans : ∀ n ∈ t.nodes, Span.IsWritable n.span ∧ Span.IsWritable n.identifierSpan
  measures : ∀ n ∈ t.nodes, ¬IsHuge t n

/-- Whatever the provider answers, the thresholds that a rule is told can be written. -/
theorem isWritable_of_hasThreshold {e : Engine} {t : Tree} {r : Rule} (hr : r ∈ catalog)
    {name : String} {value : Int} (hvalue : (e.context t r).HasThreshold name value) :
    isWritable value = true := by
  obtain ⟨s, hs, hthreshold⟩ := hvalue
  refine isWritable_threshold (eq_ok_of_mapError hs) ?_ hthreshold
  exact fun d hd => isWritable_default hr hd

section Findings

variable {e : Engine} {trees : List Tree} (hrules : ∀ r ∈ e.rules, r ∈ catalog)

include hrules

/-- What keeps an engine from reporting is a finding at a node that is out of all measure. -/
theorem exists_isHuge_of_report_error {fault : Unwritable}
    (h : e.report trees = .error (.raised fault)) :
    ∃ t ∈ trees, ∃ n ∈ t.nodes, IsHuge t n ∧ ∃ r ∈ e.rules, ∃ f,
      r.evaluate (e.context t r) n = .ok (some f) ∧ f.isShowable = false := by
  obtain ⟨t, ht, hstop⟩ := exists_analysis_of_report h
  rcases listed_cases (e.run t) with ⟨-, hlisted⟩ | ⟨-, ⟨f, hf, hshowable⟩, -⟩ | ⟨-, -, hlisted⟩
  · cases hstop.symm.trans hlisted
  · obtain ⟨r, hr, n, hn, -, hfound⟩ := exists_visit_of_mem_run hf
    have hthresholds : ∀ name value, (e.context t r).HasThreshold name value →
        isWritable value = true := fun _ _ => isWritable_of_hasThreshold (hrules r hr)
    rcases isShowable_or_isHuge (hrules r hr) hthresholds hfound with hshows | hhuge
    · rw [hshows] at hshowable
      cases hshowable
    · exact ⟨t, ht, n, hn, hhuge, r, hr, f, hfound, hshowable⟩
  · cases hstop.symm.trans hlisted

/-- A scan of trees that were built or decoded comes to an end. -/
theorem report_ne_endless (hmade : ∀ t ∈ trees, IsMade t) : e.report trees ≠ .error .endless := by
  intro h
  obtain ⟨t, ht, hstop⟩ := exists_analysis_of_report h
  have hruns := isStuck_run (ends_of_wellFormed hrules (wellFormed_of_isMade (hmade t ht)))
  rcases listed_cases (e.run t) with ⟨hstuck, -⟩ | ⟨-, -, hlisted⟩ | ⟨-, -, hlisted⟩
  · cases hruns.symm.trans hstuck
  · cases hstop.symm.trans hlisted
  · cases hstop.symm.trans hlisted

theorem report_eq_ok_of_measures (hends : e.report trees ≠ .error .endless)
    (hmeasures : ∀ t ∈ trees, ∀ n ∈ t.nodes, ¬IsHuge t n) :
    e.report trees = .ok (e.scan trees) := by
  cases hreport : e.report trees with
  | ok report => rw [eq_scan_of_report hreport]
  | error stop =>
    cases stop with
    | endless => exact absurd hreport hends
    | raised fault =>
      obtain ⟨t, ht, n, hn, hhuge, -⟩ := exists_isHuge_of_report_error hrules hreport
      exact absurd hhuge (hmeasures t ht n hn)

theorem isWritable_span_of_mem_scan (hwritable : ∀ t ∈ trees, Tree.IsWritable t) {f : Finding}
    (hf : f ∈ (e.scan trees).findings) : Span.IsWritable f.span := by
  obtain ⟨t, ht, r, hr, n, hn, hfound⟩ := exists_visit_of_mem_scan hf
  obtain ⟨hspan, hname⟩ := (hwritable t ht).spans n hn
  rcases catalog_findsAt r (hrules r hr) _ n f hfound with hf | hf
  · rwa [hf]
  · rwa [hf]

end Findings

end SeamLint.Scan

namespace SeamLint.Output

open SeamLint.Code SeamLint.Data SeamLint.Finding SeamLint.Json SeamLint.Number SeamLint.Rule
open SeamLint.Scan

/-! ## Reading a report -/

/-- Takes a text. -/
def readText : Value → Option String
  | .text s => some s
  | _ => none

/-- Takes an integer. -/
def readInt : Value → Option Int
  | .int n => some n
  | _ => none

/-- Takes a number of things. -/
def readCount : Value → Option Nat
  | .int (.ofNat n) => some n
  | _ => none

/-- Takes a list, item by item. -/
def readList {α : Type} (read : Value → Option α) : Value → Option (List α)
  | .list items => items.mapM read
  | _ => none

/-- Takes what stands under a name. -/
def readField {α : Type} (name : String) (read : Value → Option α) (v : Value) : Option α :=
  (v.get? name).bind read

/-- Takes an argument, which is a text or a number. -/
def readArgument : Value → Option Argument
  | .text s => some (.text s)
  | .int n => some (.number n)
  | _ => none

/-- Takes a span from a place. -/
def readSpan (v : Value) : Option Span := do
  return {
    startLine := ← readField "start_line" readInt v
    startColumn := ← readField "start_column" readInt v
    endLine := ← readField "end_line" readInt v
    endColumn := ← readField "end_column" readInt v }

/-- Takes a finding from its document. -/
def readFinding (v : Value) : Option Finding := do
  return {
    ruleId := ← readField "rule_id" readText v
    path := ← readField "location" (readField "path" readText) v
    span := ← readField "location" readSpan v
    arguments := ← readField "arguments" (readList readArgument) v }

/-- Takes a report from its document. -/
def readReport (v : Value) : Option Report := do
  return {
    findings := ← readField "findings" (readList readFinding) v
    trees := ← readField "summary" (readField "trees_analyzed" readCount) v
    rules := ← readField "summary" (readField "rules_applied" (readList readText)) v
    errors := ← readField "errors" (readList readText) v }

theorem readList_map {α β : Type} {read : Value → Option β} {write : α → Value} {g : α → β}
    (h : ∀ a, read (write a) = some (g a)) (as : List α) :
    readList read (.list (as.map write)) = some (as.map g) := by
  show (as.map write).mapM read = some (as.map g)
  induction as with
  | nil => rfl
  | cons a as ih => simp only [List.map_cons, List.mapM_cons, h, ih]; rfl

theorem readList_texts (texts : List String) :
    readList readText (textsValue texts) = some texts := by
  have h := readList_map (g := id) (fun s => (rfl : readText (.text s) = some s)) texts
  rwa [List.map_id] at h

theorem readArgument_argumentValue (a : Argument) : readArgument (argumentValue a) = some a := by
  cases a with
  | text s => rfl
  | number n => rfl

theorem readFinding_remarkValue (x : Remark) : readFinding (remarkValue x) = some x.finding := by
  have harguments : readField "arguments" (readList readArgument) (remarkValue x) =
      some x.finding.arguments := by
    have h := readList_map (g := id) readArgument_argumentValue x.finding.arguments
    rwa [List.map_id] at h
  unfold readFinding
  rw [harguments]
  rfl

theorem reportValue_eq_ok {r : Report} {severities : Severities} {value : Value} :
    reportValue r severities = .ok value ↔
      ∃ remarks, r.findings.mapM (remark severities) = .ok remarks ∧
        value = .object
          [field "summary" (summaryValue r),
           field "findings" (.list (remarks.map remarkValue)),
           field "errors" (textsValue r.errors)] := by
  unfold reportValue
  rw [bind_eq_ok]
  constructor
  · rintro ⟨remarks, hremarks, heq⟩
    exact ⟨remarks, hremarks, (Except.ok.inj heq).symm⟩
  · rintro ⟨remarks, hremarks, rfl⟩
    exact ⟨remarks, hremarks, rfl⟩

theorem map_finding_of_remarks {findings : List Finding} {severities : Severities}
    {remarks : List Remark} (h : findings.mapM (remark severities) = .ok remarks) :
    remarks.map Remark.finding = findings := by
  have hremarks := forall₂_of_mapM_eq_ok.mp h
  clear h
  induction hremarks with
  | nil => rfl
  | cons hx _ ih => rw [List.map_cons, ih, (remark_eq_ok hx).1]

/-- **What was rendered is read back.** -/
theorem readReport_of_reportValue {r : Report} {severities : Severities} {value : Value}
    (h : reportValue r severities = .ok value) : readReport value = some r := by
  obtain ⟨remarks, hremarks, rfl⟩ := reportValue_eq_ok.mp h
  have hfindings : readList readFinding (.list (remarks.map remarkValue)) = some r.findings := by
    rw [readList_map readFinding_remarkValue, map_finding_of_remarks hremarks]
  show (do
    return {
      findings := ← readList readFinding (.list (remarks.map remarkValue))
      trees := ← readCount (.int r.trees)
      rules := ← readList readText (textsValue r.rules)
      errors := ← readList readText (textsValue r.errors) : Report }) = some r
  rw [hfindings, readList_texts, readList_texts]
  rfl

/-! ## Documents that are read back from their text -/

theorem isKept_textsValue (texts : List String) : IsKept (textsValue texts) :=
  isKept_list_map fun s _ => .text s

/-- The numbers of a finding can be written. -/
structure IsWritableFinding (f : Finding) : Prop where
  span : Span.IsWritable f.span
  arguments : f.isShowable = true

theorem isKept_argumentValue {a : Argument} (h : a.isShowable = true) :
    IsKept (argumentValue a) := by
  cases a with
  | text s => exact .text s
  | number n => exact .int h

theorem isKept_locationValue {f : Finding} (h : Span.IsWritable f.span) :
    IsKept (locationValue f) := by
  refine isKept_object ["path", "start_line", "start_column", "end_line", "end_column"] rfl
    (by decide) ?_
  simp [IsKept.text, IsKept.int, h.startLine, h.startColumn, h.endLine, h.endColumn]

theorem isKept_remarkValue {x : Remark} (h : IsWritableFinding x.finding) :
    IsKept (remarkValue x) := by
  have harguments : IsKept (.list (x.finding.arguments.map argumentValue)) :=
    isKept_list_map fun a ha => isKept_argumentValue (List.all_eq_true.mp h.arguments a ha)
  refine isKept_object ["rule_id", "location", "arguments", "severity", "message"] rfl
    (by decide) ?_
  simp [findingFields, IsKept.text, isKept_locationValue h.span, harguments]

theorem isKept_countsValue {r : Report} (h : isWritable r.findings.length = true) :
    IsKept (countsValue r) := by
  refine isKept_object (r.byRule.map Prod.fst) ?_ (tallies_byRule r).nodup ?_
  · simp [field]
  · exact List.forall_mem_map.mpr fun entry hentry => .int (isWritable_of_mem_byRule h hentry)

theorem isKept_summaryValue {r : Report} (hcount : isWritable r.findings.length = true)
    (htrees : isWritable r.trees = true) : IsKept (summaryValue r) := by
  refine isKept_object ["count", "trees_analyzed", "by_rule", "rules_applied"] rfl (by decide) ?_
  simp [IsKept.int, hcount, htrees, isKept_countsValue, isKept_textsValue]

theorem isKept_of_reportValue {r : Report} {severities : Severities} {value : Value}
    (h : reportValue r severities = .ok value) (hfindings : ∀ f ∈ r.findings, IsWritableFinding f)
    (hcount : isWritable r.findings.length = true) (htrees : isWritable r.trees = true) :
    IsKept value := by
  obtain ⟨remarks, hremarks, rfl⟩ := reportValue_eq_ok.mp h
  have hlist : IsKept (.list (remarks.map remarkValue)) := by
    refine isKept_list_map fun x hx => isKept_remarkValue ?_
    refine hfindings _ ?_
    rw [← map_finding_of_remarks hremarks]
    exact List.mem_map_of_mem hx
  refine isKept_object ["summary", "findings", "errors"] rfl (by decide) ?_
  simp [hlist, isKept_summaryValue hcount htrees, isKept_textsValue]

/-! ## Logs that are read back from their text -/

theorem isKept_sarifText (text : String) : IsKept (sarifText text) := by
  refine isKept_object ["text"] rfl (by decide) ?_
  simp [IsKept.text]

theorem isKept_sarifRule (d : Descriptor) : IsKept (sarifRule d) := by
  have hproperties : IsKept (.object [field "category" (.text d.category.name)]) :=
    isKept_object ["category"] rfl (by decide) (by simp [IsKept.text])
  refine isKept_object
    ["id", "name", "shortDescription", "fullDescription", "helpUri", "properties"] rfl
    (by decide) ?_
  simp [IsKept.text, isKept_sarifText, hproperties]

theorem isKept_sarifLocation {f : Finding} (h : Span.IsWritable f.span) :
    IsKept (sarifLocation f) := by
  have hfile : IsKept (.object [field "uri" (.text (sarifUri f.path))]) :=
    isKept_object ["uri"] rfl (by decide) (by simp [IsKept.text])
  have hplace : IsKept (.object
      (field "artifactLocation" (.object [field "uri" (.text (sarifUri f.path))]) ::
        sarifRegion f)) := by
    unfold sarifRegion
    split
    · have hregion : IsKept (.object
          [field "startLine" (.int f.span.startLine),
           field "startColumn" (.int f.span.startColumn),
           field "endLine" (.int f.span.endLine),
           field "endColumn" (.int f.span.endColumn)]) := by
        refine isKept_object ["startLine", "startColumn", "endLine", "endColumn"] rfl
          (by decide) ?_
        simp [IsKept.int, h.startLine, h.startColumn, h.endLine, h.endColumn]
      refine isKept_object ["artifactLocation", "region"] rfl (by decide) ?_
      simp [hfile, hregion]
    · refine isKept_object ["artifactLocation"] rfl (by decide) ?_
      simp [hfile]
  refine isKept_object ["physicalLocation"] rfl (by decide) ?_
  simp [hplace]

theorem isKept_sarifResult {ids : List String} {x : Remark} (hspan : Span.IsWritable x.finding.span)
    (hindex : isWritable (ids.idxOf x.finding.ruleId) = true) : IsKept (sarifResult ids x) := by
  have hlocations : IsKept (.list [sarifLocation x.finding]) :=
    .list (List.forall_mem_singleton.mpr (isKept_sarifLocation hspan))
  refine isKept_object ["ruleId", "ruleIndex", "level", "message", "locations"] rfl (by decide) ?_
  simp [IsKept.text, IsKept.int, hindex, isKept_sarifText, hlocations]

theorem isKept_sarifNotification (error : String) : IsKept (sarifNotification error) := by
  refine isKept_object ["level", "message"] rfl (by decide) ?_
  simp [IsKept.text, isKept_sarifText]

theorem isKept_of_sarifValue {r : Report} {severities : Severities} {log : Value}
    (h : sarifValue r severities = .ok log) (hspans : ∀ f ∈ r.findings, Span.IsWritable f.span)
    (hids : isWritable (foundIds r).length = true) : IsKept log := by
  obtain ⟨remarks, hremarks, hrest⟩ := bind_eq_ok.mp h
  obtain ⟨rules, -, heq⟩ := bind_eq_ok.mp hrest
  cases heq
  have hdriver : IsKept (.object
      [field "name" (.text toolName), field "version" (.text toolVersion),
       field "rules" (.list (rules.map sarifRule))]) := by
    refine isKept_object ["name", "version", "rules"] rfl (by decide) ?_
    simp [IsKept.text, isKept_list_map fun d _ => isKept_sarifRule d]
  have htool : IsKept (.object [field "driver" (.object
      [field "name" (.text toolName), field "version" (.text toolVersion),
       field "rules" (.list (rules.map sarifRule))])]) :=
    isKept_object ["driver"] rfl (by decide) (by simp [hdriver])
  have hresults : IsKept (.list (remarks.map (sarifResult (foundIds r)))) := by
    refine isKept_list_map fun x hx => ?_
    have hx : x.finding ∈ r.findings := by
      rw [← map_finding_of_remarks hremarks]
      exact List.mem_map_of_mem hx
    refine isKept_sarifResult (hspans _ hx) ?_
    rw [isWritable_iff] at hids ⊢
    exact lt_of_le_of_lt (by simpa using List.idxOf_le_length) hids
  have hinvocation : IsKept (.object
      [field "executionSuccessful" (.bool r.errors.isEmpty),
       field "toolExecutionNotifications" (.list (r.errors.map sarifNotification))]) := by
    refine isKept_object ["executionSuccessful", "toolExecutionNotifications"] rfl (by decide) ?_
    simp [IsKept.bool, isKept_list_map fun error _ => isKept_sarifNotification error]
  have hrun : IsKept (.object
      [field "tool" (.object [field "driver" (.object
         [field "name" (.text toolName), field "version" (.text toolVersion),
          field "rules" (.list (rules.map sarifRule))])]),
       field "results" (.list (remarks.map (sarifResult (foundIds r)))),
       field "invocations" (.list [.object
         [field "executionSuccessful" (.bool r.errors.isEmpty),
          field "toolExecutionNotifications" (.list (r.errors.map sarifNotification))]])]) := by
    have hinvocations := IsKept.list (List.forall_mem_singleton.mpr hinvocation)
    exact isKept_object ["tool", "results", "invocations"] rfl (by decide)
      (by simp [htool, hresults, hinvocations])
  have hruns := IsKept.list (List.forall_mem_singleton.mpr hrun)
  exact isKept_object ["version", "$schema", "runs"] rfl (by decide) (by simp [IsKept.text, hruns])

/-! ## Reports of the catalogue -/

section Catalog

variable {r : Report} (hlisted : ∀ f ∈ r.findings, FromCatalog f ∧ f.isShowable = true)

include hlisted

theorem id_mem_catalog_of_found {id : String} (hid : id ∈ foundIds r) :
    ∃ rule ∈ catalog, rule.id = id := by
  have hperm : (foundIds r).Perm (r.byRule.map Prod.fst) := List.mergeSort_perm _ _
  obtain ⟨f, hf, rfl⟩ := mem_keys_byRule.mp (hperm.mem_iff.mp hid)
  obtain ⟨⟨rule, hrule, context, n, hfound⟩, -⟩ := hlisted f hf
  exact ⟨rule, hrule, (signs_of_mem_catalog hrule context n f hfound).symm⟩

/-- There are no more rules in a log than in the catalogue. -/
theorem isWritable_length_foundIds : isWritable (foundIds r).length = true := by
  have hperm : (foundIds r).Perm (r.byRule.map Prod.fst) := List.mergeSort_perm _ _
  have hnodup : (foundIds r).Nodup := hperm.nodup_iff.mpr (tallies_byRule r).nodup
  have hsubset : foundIds r ⊆ catalog.map Rule.id := fun id hid =>
    List.mem_map.mpr (id_mem_catalog_of_found hlisted hid)
  have hlength : (foundIds r).length ≤ 18 := (hnodup.subperm hsubset).length_le
  refine isWritable_of_small ?_
  rw [Int.natAbs_natCast]
  omega

theorem succeeds_sarifValue (severities : Severities) : Succeeds (sarifValue r severities) := by
  obtain ⟨remarks, hremarks⟩ := Command.succeeds_remarks severities hlisted
  obtain ⟨rules, hrules⟩ : Succeeds ((foundIds r).mapM describe) := by
    refine succeeds_mapM.mpr fun id hid => ?_
    obtain ⟨rule, hrule, rfl⟩ := id_mem_catalog_of_found hlisted hid
    refine ⟨rule.descriptor, ?_⟩
    unfold describe
    rw [descriptor?_of_mem_catalog hrule]
  exact ⟨_, bind_eq_ok.mpr ⟨remarks, hremarks, bind_eq_ok.mpr ⟨rules, hrules, rfl⟩⟩⟩

theorem fits_of_fromCatalog {f : Finding} (hf : f ∈ r.findings) :
    ∃ d, descriptor? f.ruleId = some d ∧
      d.template.all (Part.fits f.arguments.length) = true := by
  obtain ⟨⟨rule, hrule, context, n, hfound⟩, -⟩ := hlisted f hf
  rw [signs_of_mem_catalog hrule context n f hfound]
  exact ⟨rule.descriptor, descriptor?_of_mem_catalog hrule, fits_of_mem_catalog hrule hfound⟩

end Catalog

/-! ## A tree with one method -/

/-- A private method. -/
def methodNode (name : String) (first last : Int) : Node :=
  { kind := .method, modifiers := ["private"], name := some name, span := ⟨first, 1, last, 1⟩,
    index := 1, parent := some 0, children := [2] }

/-- A tree with the method, which has a block in it. -/
def privateMethodTree (path name : String) (first last : Int) : Tree :=
  ⟨path, #[{ kind := .compilationUnit, index := 0, children := [1] }, methodNode name first last,
    { kind := .block, index := 2, parent := some 1 }]⟩

/-- An engine with the rule for large private methods. Its provider always gives this answer. -/
def methodEngine (answer : Settings.Answer) : Engine :=
  ⟨[largePrivateMethod], fun _ _ => answer, {}⟩

section PrivateMethod

variable (answer : Settings.Answer) (path name : String) (first last : Int)

theorem visits_privateMethodTree :
    visits ((methodEngine answer).readers (privateMethodTree path name first last))
      (privateMethodTree path name first last).nodes.toList =
        [((methodEngine answer).reader (privateMethodTree path name first last) largePrivateMethod,
          methodNode name first last)] := rfl

variable {answer first last} (h : answer.text? = none) (hlines : 50 < last - first + 1)

include h hlines

theorem evaluate_privateMethodTree :
    largePrivateMethod.evaluate
        ((methodEngine answer).context (privateMethodTree path name first last) largePrivateMethod)
        (methodNode name first last) =
      .ok (some ⟨"SEAM011", path, ⟨first, 1, last, 1⟩,
        [.text name, .number (last - first + 1)]⟩) :=
  evaluate_largePrivateMethod rfl rfl rfl (hasThreshold_lines h _ _ _) hlines

theorem findings_privateMethodTree :
    ((methodEngine answer).scan [privateMethodTree path name first last]).findings =
      [⟨"SEAM011", path, ⟨first, 1, last, 1⟩, [.text name, .number (last - first + 1)]⟩] :=
  scan_findings_of_single_visit (visits_privateMethodTree answer path name first last)
    (evaluate_privateMethodTree path name h hlines)

/-- The method is reported if the number of its lines can be written. -/
theorem report_privateMethodTree :
    (methodEngine answer).report [privateMethodTree path name first last] =
      if isWritable (last - first + 1) then
        .ok ((methodEngine answer).scan [privateMethodTree path name first last])
      else .error (.raised {}) := by
  rw [report_of_single_visit (visits_privateMethodTree answer path name first last)
    (evaluate_privateMethodTree path name h hlines)]
  simp [Finding.isShowable, Argument.isShowable]

end PrivateMethod

theorem isWritable_privateMethodTree (path name : String) {first last : Int}
    (hspan : Span.IsWritable ⟨first, 1, last, 1⟩) (hlines : isWritable (last - first + 1) = true) :
    Tree.IsWritable (privateMethodTree path name first last) := by
  have hnone : Span.IsWritable {} :=
    ⟨isWritable_of_small (by decide), isWritable_of_small (by decide),
      isWritable_of_small (by decide), isWritable_of_small (by decide)⟩
  have hlimit : (10 : Int) ^ 2 ≤ 10 ^ digitLimit := pow_le_pow_right₀ (by decide) (by decide)
  have hscore : Measure.complexityAt (privateMethodTree path name first last)
      (methodNode name first last) = .ok 1 := Measure.complexityAt_of_complexityTo 3 rfl rfl
  rw [isWritable_iff_lt] at hlines
  constructor
  · intro n hn
    rcases (by simpa [privateMethodTree] using hn : _ ∨ n = methodNode name first last ∨ _) with
      rfl | rfl | rfl
    · exact ⟨hnone, hnone⟩
    · exact ⟨hspan, hspan⟩
    · exact ⟨hnone, hnone⟩
  · intro n hn
    have hmeasures : n.span.lineCount < 10 ^ digitLimit ∧ ∀ score,
        Measure.complexityAt (privateMethodTree path name first last) n = .ok score →
          score = 1 := by
      have hone : Span.lineCount {} < 10 ^ digitLimit := lt_of_lt_of_le (by decide) hlimit
      rcases (by simpa [privateMethodTree] using hn : _ ∨ n = methodNode name first last ∨ _) with
        rfl | rfl | rfl
      · exact ⟨hone, fun score h => by cases h⟩
      · exact ⟨hlines.2, fun score h => Except.ok.inj (h.symm.trans hscore)⟩
      · exact ⟨hone, fun score h => by cases h⟩
    rintro (hmany | ⟨score, hn, hhuge⟩)
    · exact absurd hmany (not_le.mpr hmeasures.1)
    · obtain rfl := hmeasures.2 score hn
      exact absurd hhuge (not_le.mpr (Nat.one_lt_pow (by decide) (by decide)))

/-! ## Recovering a report -/

/-- **A report can be rendered, and its document loses nothing.** With any rules of the catalogue,
any provider and tables, and any severities, a scan of trees whose numbers can be written has a
report if it comes to an end. The message of every finding has an argument for each of its slots,
and the report has a document in both formats. Its findings with their arguments, its trees, its
rules and its errors are taken from the document, which also counts the findings, all of them and by
rule. Both documents are written and read back from their texts, that of the report if its counts
can be written. -/
theorem report_recovered_from_document (e : Engine) (hrules : ∀ r ∈ e.rules, r ∈ catalog)
    (trees : List Tree) (hwritable : ∀ t ∈ trees, Tree.IsWritable t)
    (hends : e.report trees ≠ .error .endless) (severities : Severities) :
    ∃ report, e.report trees = .ok report ∧
      (∀ f ∈ report.findings, ∃ d, descriptor? f.ruleId = some d ∧
        d.template.all (Part.fits f.arguments.length) = true) ∧
      (∃ log, sarifValue report severities = .ok log ∧
        sarifReport report severities = .ok (pretty log) ∧ Json.read (pretty log) = .ok log) ∧
      ∃ value counts, reportValue report severities = .ok value ∧
        readReport value = some report ∧
        readField "summary" (readField "count" readCount) value = some report.findings.length ∧
        readField "summary" (readField "by_rule" some) value =
          some (.object (counts.map fun entry => field entry.1 (.int entry.2))) ∧
        Tallies counts report.findings ∧
        (isWritable report.findings.length = true → isWritable report.trees = true →
          jsonReport report severities = .ok (pretty value) ∧
            Json.read (pretty value) = .ok value) := by
  have hreport : e.report trees = .ok (e.scan trees) :=
    report_eq_ok_of_measures hrules hends fun t ht => (hwritable t ht).measures
  have hlisted := listed_of_report hrules hreport
  have hfindings : ∀ f ∈ (e.scan trees).findings, IsWritableFinding f := fun f hf =>
    ⟨isWritable_span_of_mem_scan hrules hwritable hf, (hlisted f hf).2⟩
  refine ⟨e.scan trees, hreport, fun f hf => fits_of_fromCatalog hlisted hf, ?_, ?_⟩
  · obtain ⟨log, hlog⟩ := succeeds_sarifValue hlisted severities
    have hkept : IsKept log := isKept_of_sarifValue hlog (fun f hf => (hfindings f hf).span)
      (isWritable_length_foundIds hlisted)
    refine ⟨log, hlog, bind_eq_ok.mpr ⟨log, hlog, ?_⟩, read_pretty hkept⟩
    rw [hkept.write]
    rfl
  · obtain ⟨value, hvalue⟩ := Command.succeeds_reportValue severities hlisted
    refine ⟨value, (e.scan trees).byRule, hvalue, readReport_of_reportValue hvalue, ?_, ?_,
      tallies_byRule _, fun hcount htrees => ?_⟩
    · obtain ⟨remarks, -, rfl⟩ := reportValue_eq_ok.mp hvalue
      rfl
    · obtain ⟨remarks, -, rfl⟩ := reportValue_eq_ok.mp hvalue
      rfl
    · have hkept : IsKept value := isKept_of_reportValue hvalue hfindings hcount htrees
      refine ⟨bind_eq_ok.mpr ⟨value, hvalue, ?_⟩, read_pretty hkept⟩
      rw [hkept.write]
      rfl

/-- A finding whose path, name and number all end up in its message, from a provider that fails. -/
theorem report_recovered_from_document_quoted :
    let t := privateMethodTree "src\\\x7b0\x7d.cs" "Run\x7b1\x7d\"\n" 1 80
    Tree.IsWritable t ∧ ∃ report value, (methodEngine .failed).report [t] = .ok report ∧
      report.findings = [⟨"SEAM011", "src\\\x7b0\x7d.cs", ⟨1, 1, 80, 1⟩,
        [.text "Run\x7b1\x7d\"\n", .number 80]⟩] ∧
      jsonReport report [("SEAM011", .error)] = .ok (pretty value) ∧
      Json.read (pretty value) = .ok value ∧ readReport value = some report := by
  intro t
  have hspan : Span.IsWritable ⟨1, 1, 80, 1⟩ :=
    ⟨isWritable_of_small (by decide), isWritable_of_small (by decide),
      isWritable_of_small (by decide), isWritable_of_small (by decide)⟩
  have hwritable : Tree.IsWritable t :=
    isWritable_privateMethodTree _ _ hspan (isWritable_of_small (by decide))
  have hfindings : ((methodEngine .failed).scan [t]).findings = _ :=
    findings_privateMethodTree _ _ rfl (by decide)
  have hends : (methodEngine .failed).report [t] ≠ .error .endless := by
    rw [report_privateMethodTree _ _ rfl (by decide), if_pos (isWritable_of_small (by decide))]
    intro h
    cases h
  obtain ⟨report, hreport, -, -, value, -, -, hread, -, -, -, htext⟩ :=
    report_recovered_from_document (methodEngine .failed) (by simp [methodEngine, catalog]) [t]
      (by simpa using hwritable) hends [("SEAM011", .error)]
  obtain rfl := eq_scan_of_report hreport
  obtain ⟨hjson, hagain⟩ : _ ∧ _ := htext
    (by
      rw [hfindings]
      exact isWritable_of_small (by decide))
    (isWritable_of_small (by decide))
  exact ⟨hwritable, _, value, hreport, hfindings, hjson, hagain, hread⟩

end SeamLint.Output
