import SeamLint.Proofs.DecimalText
import SeamLint.Proofs.PrintedLines
import SeamLint.Proofs.RuleListing

set_option autoImplicit false

/-! # Reports printed word for word

The messages of the catalogue hold no control characters and end in no backslash, so every finding
and error of a report without control characters has a line of its own. A number that cannot be
written, or a closing tag that bridges the place and the message of a finding, keeps the whole
report from being printed; any other report is printed line by line, and `textReport_verbatim_iff`
says which lines read word for word. All of this holds on every console that reads markup.
-/

namespace SeamLint.Finding

/-- The numbers of a place can be written. -/
structure IsPlaced (f : Finding) : Prop where
  row : Number.isWritable f.span.startLine = true
  column : Number.isWritable f.span.startColumn = true

theorem writtenPlace_eq_ok {f : Finding} {text : String} :
    f.writtenPlace = .ok text ↔ f.IsPlaced ∧ f.place = text := by
  unfold writtenPlace
  constructor
  · intro h
    obtain ⟨row, hrow', hrest⟩ := Scan.bind_eq_ok.mp h
    obtain ⟨column, hcolumn', htext⟩ := Scan.bind_eq_ok.mp hrest
    obtain ⟨hrow, rfl⟩ := Number.written_eq_ok.mp hrow'
    obtain ⟨hcolumn, rfl⟩ := Number.written_eq_ok.mp hcolumn'
    exact ⟨⟨hrow, hcolumn⟩, Except.ok.inj htext⟩
  · rintro ⟨⟨hrow, hcolumn⟩, rfl⟩
    have hrow := Number.written_eq_ok.mpr ⟨hrow, rfl⟩
    have hcolumn := Number.written_eq_ok.mpr ⟨hcolumn, rfl⟩
    exact Scan.bind_eq_ok.mpr ⟨_, hrow, Scan.bind_eq_ok.mpr ⟨_, hcolumn, rfl⟩⟩

end SeamLint.Finding

namespace SeamLint.Rule

open SeamLint.Finding

/-! ## The wording of the catalogue -/

/-- The text of a part has no control characters. -/
def Part.IsPlain : Part → Prop
  | .text s => Output.IsClear s
  | .slot _ => True

/-- The part is text and does not end in a backslash. -/
def Part.EndsPlain : Part → Prop
  | .text s => ∃ c, s.toList.getLast? = some c ∧ c ≠ '\\'
  | .slot _ => False

theorem Part.endsPlain_text {l : List Char} {c : Char} (hlast : l.getLast? = some c)
    (hc : (c != '\\') = true) : Part.EndsPlain (.text (String.ofList l)) := by
  refine ⟨c, ?_, bne_iff_ne.mp hc⟩
  rw [String.toList_ofList, hlast]

theorem catalog_texts_plain : ∀ d ∈ descriptors, ∀ part ∈ d.template, part.IsPlain := by
  -- the table is walked part by part: a part is text or a slot
  repeat' first
    | exact Output.isClear_ofList rfl
    | exact trivial
    | exact List.forall_mem_nil _
    | refine List.forall_mem_cons.mpr ⟨?_, ?_⟩

theorem catalog_ends_plain :
    ∀ d ∈ descriptors, ∃ part, d.template.getLast? = some part ∧ part.EndsPlain := by
  repeat' first
    | exact ⟨_, rfl, Part.endsPlain_text rfl rfl⟩
    | exact List.forall_mem_nil _
    | refine List.forall_mem_cons.mpr ⟨?_, ?_⟩

theorem catalog_ids_words : ∀ d ∈ descriptors, d.id.toList.all Char.isAlphanum = true := by
  have hall : (descriptors.all fun d => d.id.toList.all Char.isAlphanum) = true := by
    decide +kernel
  exact List.all_eq_true.mp hall

theorem descriptor?_of_mem {d : Descriptor} (hd : d ∈ descriptors) : descriptor? d.id = some d := by
  obtain ⟨r, hr, rfl⟩ := List.mem_map.mp hd
  exact descriptor?_of_mem_catalog hr

theorem forall₂_of_mapM_eq_ok {ε α β : Type} {next : α → Except ε β} {as : List α} {bs : List β} :
    as.mapM next = .ok bs ↔ List.Forall₂ (fun a b => next a = .ok b) as bs := by
  induction as generalizing bs with
  | nil =>
    rw [List.mapM_nil, List.forall₂_nil_left_iff]
    exact ⟨fun h => (Except.ok.inj h).symm, fun h => h ▸ rfl⟩
  | cons a as ih =>
    rw [List.mapM_cons, Scan.bind_eq_ok, List.forall₂_cons_left_iff]
    constructor
    · rintro ⟨b, hb, hrest⟩
      obtain ⟨bs', hbs', heq⟩ := Scan.bind_eq_ok.mp hrest
      exact ⟨b, bs', hb, ih.mp hbs', (Except.ok.inj heq).symm⟩
    · rintro ⟨b, bs', hb, hbs', rfl⟩
      exact ⟨b, hb, Scan.bind_eq_ok.mpr ⟨bs', ih.mpr hbs', rfl⟩⟩

/-- What a message is made of. -/
theorem fill_eq_ok {template : Template} {arguments : List Argument} {message : String}
    (h : template.fill arguments = .ok message) :
    ∃ texts, List.Forall₂ (fun part text => Part.fill arguments part = .ok text) template texts ∧
      message.toList = texts.flatMap String.toList := by
  unfold Template.fill at h
  obtain ⟨texts, htexts, heq⟩ := Scan.bind_eq_ok.mp h
  refine ⟨texts, forall₂_of_mapM_eq_ok.mp htexts, ?_⟩
  rw [← Except.ok.inj heq]
  exact Output.toList_join_nil texts

theorem isClear_of_fill {template : Template} {arguments : List Argument} {message : String}
    (h : template.fill arguments = .ok message) (hparts : ∀ part ∈ template, part.IsPlain)
    (harguments : ∀ a ∈ arguments, Output.IsClear a.shown) : Output.IsClear message := by
  obtain ⟨texts, htexts, hmessage⟩ := fill_eq_ok h
  unfold Output.IsClear
  rw [hmessage]
  clear h hmessage
  induction htexts with
  | nil => exact List.forall_mem_nil _
  | @cons part text parts texts hfill _ ih =>
    rw [List.forall_mem_cons] at hparts
    rw [List.flatMap_cons, List.forall_mem_append]
    refine ⟨?_, ih hparts.2⟩
    cases part with
    | text s =>
      cases hfill
      exact hparts.1
    | slot index =>
      obtain ⟨a, ha, -, rfl⟩ := Part.fill_slot_eq_ok.mp hfill
      exact harguments a (List.mem_of_getElem? ha)

theorem getLast?_of_fill {template : Template} {arguments : List Argument} {message : String}
    (h : template.fill arguments = .ok message)
    (hlast : ∃ part, template.getLast? = some part ∧ part.EndsPlain) :
    message.toList.getLast? ≠ some '\\' := by
  obtain ⟨texts, htexts, hmessage⟩ := fill_eq_ok h
  obtain ⟨part, hpart, hends⟩ := hlast
  obtain ⟨front, rfl⟩ := List.getLast?_eq_some_iff.mp hpart
  cases part with
  | slot index => cases hends
  | text s =>
    obtain ⟨c, hc, hne⟩ := hends
    have hreverse := List.forall₂_reverse_iff.mpr htexts
    rw [List.reverse_concat, List.forall₂_cons_left_iff] at hreverse
    obtain ⟨text, rest, hfill, -, htexts⟩ := hreverse
    cases hfill
    have hend : texts = rest.reverse ++ [s] := by simpa using congrArg List.reverse htexts
    have hlast : message.toList.getLast? = some c := by
      rw [hmessage, hend, List.flatMap_append, List.flatMap_singleton, List.getLast?_append, hc]
      rfl
    rw [hlast]
    exact fun heq => hne (Option.some.inj heq)

end SeamLint.Rule

namespace SeamLint.Output

open SeamLint.Text SeamLint.Finding SeamLint.Rule

/-! ## Reports that are to be printed -/

/-- A report that is to be printed: every finding has a rule and the arguments for its message, and
no text has control characters. -/
structure IsPrintable (r : Report) : Prop where
  worded : ∀ f ∈ r.findings, ∃ d ∈ descriptors, d.id = f.ruleId ∧
    d.template.all (Part.fits f.arguments.length) = true
  paths : ∀ f ∈ r.findings, IsClear f.path
  arguments : ∀ f ∈ r.findings, ∀ s, .text s ∈ f.arguments → IsClear s
  errors : ∀ e ∈ r.errors, IsClear e

/-- The numbers that are printed of a report can be written: those of places and in messages, and
those of findings and trees. -/
structure IsNumbered (r : Report) : Prop where
  placed : ∀ f ∈ r.findings, f.IsPlaced
  filled : ∀ f ∈ r.findings, ∀ d ∈ descriptors, d.id = f.ruleId → d.template.IsFilled f.arguments
  findings : Number.isWritable r.findings.length = true
  trees : Number.isWritable r.trees = true

theorem toList_place (f : Finding) :
    f.place.toList = f.path.toList ++ ':' :: (toString f.span.startLine).toList ++
      ':' :: (toString f.span.startColumn).toList := by
  have hplace : f.place = f.path ++ ":" ++ toString f.span.startLine ++ ":" ++
      toString f.span.startColumn := rfl
  rw [hplace]
  simp

theorem isClear_toString (n : Int) : IsClear (toString n) := by
  intro c hc
  rcases Number.isDigit_of_mem_toString hc with rfl | hdigit
  · rfl
  · exact isControl_of_isAlphanum (by simp [Char.isAlphanum, hdigit])

theorem not_mem_toString {c : Char} (hminus : c ≠ '-') (hdigit : c.isDigit = false) (n : Int) :
    c ∉ (toString n).toList := by
  intro hmem
  rcases Number.isDigit_of_mem_toString hmem with heq | hc
  · exact hminus heq
  · rw [hc] at hdigit
    cases hdigit

theorem describe_of_mem {d : Descriptor} (hd : d ∈ descriptors) : describe d.id = .ok d := by
  unfold describe
  rw [descriptor?_of_mem hd]

theorem remark_eq_ok {severities : Severities} {f : Finding} {x : Remark}
    (h : remark severities f = .ok x) :
    x.finding = f ∧
      ∃ d, describe f.ruleId = .ok d ∧ d.template.fill f.arguments = .ok x.message := by
  unfold remark at h
  obtain ⟨d, hd, hrest⟩ := Scan.bind_eq_ok.mp h
  obtain ⟨message, hmessage, heq⟩ := Scan.bind_eq_ok.mp hrest
  cases heq
  exact ⟨rfl, d, hd, eq_ok_of_mapError hmessage⟩

/-- A finding can be worded if it has a rule and an argument that can be shown for every slot of its
message. -/
theorem succeeds_remark_iff {severities : Severities} {f : Finding} :
    Scan.Succeeds (remark severities f) ↔
      ∃ d, describe f.ruleId = .ok d ∧ d.template.IsFilled f.arguments := by
  constructor
  · rintro ⟨x, hx⟩
    obtain ⟨-, d, hd, hmessage⟩ := remark_eq_ok hx
    exact ⟨d, hd, succeeds_fill_iff.mp ⟨_, hmessage⟩⟩
  · rintro ⟨d, hd, hfilled⟩
    obtain ⟨message, hmessage⟩ := succeeds_fill_iff.mpr hfilled
    exact ⟨_, Scan.bind_eq_ok.mpr ⟨d, hd, Scan.bind_eq_ok.mpr
      ⟨message, congrArg (Except.mapError OutputFault.wording) hmessage, rfl⟩⟩⟩

section Printable

variable {r : Report} (h : IsPrintable r)

include h

/-- What is said about a finding of a printable report is said on one line. -/
theorem IsPrintable.isOneLine {severities : Severities} {f : Finding} (hf : f ∈ r.findings)
    {x : Remark} (hx : remark severities f = .ok x) : x.IsOneLine := by
  obtain ⟨hfinding, d, hdescribe, hmessage⟩ := remark_eq_ok hx
  obtain ⟨d', hd, hid, -⟩ := h.worded f hf
  rw [← hid, describe_of_mem hd] at hdescribe
  obtain rfl := Except.ok.inj hdescribe
  have harguments : ∀ a ∈ f.arguments, IsClear a.shown := by
    intro a ha
    cases a with
    | text s => exact h.arguments f hf s ha
    | number n => exact isClear_toString n
  have hplace : IsClear f.place :=
    ((((h.paths f hf).append (isClear_ofList rfl)).append (isClear_toString _)).append
      (isClear_ofList rfl)).append (isClear_toString _)
  refine ⟨?_, ?_, ?_, ?_, ?_⟩
  · have hword := catalog_ids_words _ hd
    rw [hid] at hword
    rw [hfinding]
    exact List.all_eq_true.mp hword
  · rwa [hfinding]
  · exact isClear_of_fill hmessage (catalog_texts_plain _ hd) harguments
  · -- a place ends in a digit, or at least in a colon
    have hcolumn := not_mem_toString (c := '\\') (by decide) (by decide) f.span.startColumn
    rw [hfinding, toList_place]
    intro hlast
    have hmem : '\\' ∈ ':' :: (toString f.span.startColumn).toList := by
      rw [List.getLast?_append_of_ne_nil _ (List.cons_ne_nil _ _)] at hlast
      exact List.mem_of_getLast? hlast
    rw [List.mem_cons] at hmem
    rcases hmem with hcolon | hmem
    · exact absurd hcolon (by decide)
    · exact hcolumn hmem
  · exact getLast?_of_fill hmessage (catalog_ends_plain _ hd)

theorem IsPrintable.isOneLine_of_mapM {severities : Severities} {remarks : List Remark}
    (hremarks : r.findings.mapM (remark severities) = .ok remarks) :
    ∀ x ∈ remarks, x.IsOneLine := by
  intro x hx
  obtain ⟨f, hf, hremark⟩ := (Scan.mem_iff_of_mapM_eq_ok hremarks).mp hx
  exact h.isOneLine hf hremark

/-- The findings of a printable report are worded if and only if the numbers in their messages can
be written. -/
theorem IsPrintable.succeeds_remarks_iff (severities : Severities) :
    Scan.Succeeds (r.findings.mapM (remark severities)) ↔
      ∀ f ∈ r.findings, ∀ d ∈ descriptors, d.id = f.ruleId → d.template.IsFilled f.arguments := by
  rw [Scan.succeeds_mapM]
  refine forall₂_congr fun f hf => ?_
  obtain ⟨d, hd, hid, -⟩ := h.worded f hf
  rw [succeeds_remark_iff]
  constructor
  · rintro ⟨d', hdescribe, hfilled⟩ d'' hd' hid'
    rw [← hid', describe_of_mem hd'] at hdescribe
    obtain rfl := Except.ok.inj hdescribe
    exact hfilled
  · intro hfilled
    exact ⟨d, hid ▸ describe_of_mem hd, hfilled d hd hid⟩

theorem IsPrintable.exists_counts (console : Console)
    (hwritable : Number.isWritable r.findings.length = true) :
    ∃ counts, countsText console r false = .ok counts := by
  unfold countsText
  by_cases hempty : r.findings.isEmpty = true
  · rw [if_pos hempty]
    exact ⟨_, rfl⟩
  · rw [if_neg hempty]
    have hrows : Scan.Succeeds ((r.byRule.mergeSort fun a b => a.1 ≤ b.1).mapM countRow) := by
      refine Scan.succeeds_mapM.mpr fun entry hentry => ?_
      have hmem := List.mem_mergeSort.mp hentry
      obtain ⟨f, hf, hid⟩ := mem_keys_byRule.mp (List.mem_map_of_mem hmem)
      obtain ⟨d, hd, hdescriptor, -⟩ := h.worded f hf
      have hdescribe : describe entry.1 = .ok d := by
        rw [← hid, ← hdescriptor, describe_of_mem hd]
      have hcount := Number.written_eq_ok.mpr ⟨isWritable_of_mem_byRule hwritable hmem, rfl⟩
      exact ⟨_, Scan.bind_eq_ok.mpr ⟨d, hdescribe, Scan.bind_eq_ok.mpr
        ⟨_, congrArg (Except.mapError OutputFault.unwritable) hcount, rfl⟩⟩⟩
    obtain ⟨rows, hrows⟩ := hrows
    exact ⟨_, Scan.bind_eq_ok.mpr ⟨_, Scan.bind_eq_ok.mpr ⟨rows, hrows, rfl⟩, rfl⟩⟩

end Printable

/-! ## The text of a report -/

/-- The closing line, word for word. -/
def closingText (r : Report) : String :=
  toString (r.findings.length : Int) ++ " finding(s) in " ++ toString (r.trees : Int) ++
    " file(s)\n"

/-- What a report prints word for word. -/
def verbatimText (remarks : List Remark) (counts : String) (r : Report) : String :=
  join "" (remarks.map remarkLine) ++ counts ++ join "" (r.errors.map errorText) ++ closingText r

theorem forall₂_imp_of_mem {α β : Type} {R S : α → β → Prop} {as : List α} {bs : List β}
    (h : List.Forall₂ R as bs) (himp : ∀ a ∈ as, ∀ b, R a b → S a b) : List.Forall₂ S as bs := by
  induction h with
  | nil => exact .nil
  | cons hhead _ ih =>
    rw [List.forall_mem_cons] at himp
    exact .cons (himp.1 _ hhead) (ih himp.2)

/-- A line of output, which reads as wanted under the condition `P` only. -/
def IsLineOf (wanted : String) (P : Prop) (line : String) : Prop :=
  IsLine line.toList ∧ (line = wanted ↔ P)

theorem eq_map_iff_of_forall₂ {α : Type} {g : α → String} {P : α → Prop} {as : List α}
    {lines : List String} (h : List.Forall₂ (fun a line => IsLineOf (g a) (P a) line) as lines) :
    lines = as.map g ↔ ∀ a ∈ as, P a := by
  induction h with
  | nil => simp
  | cons hline _ ih =>
    rw [List.map_cons, List.cons.injEq, List.forall_mem_cons, ih, hline.2]

theorem isLine_of_forall₂ {α : Type} {g : α → String} {P : α → Prop} {as : List α}
    {lines : List String} (h : List.Forall₂ (fun a line => IsLineOf (g a) (P a) line) as lines) :
    ∀ line ∈ lines, IsLine line.toList := by
  induction h with
  | nil => exact List.forall_mem_nil _
  | cons hline _ ih => exact List.forall_mem_cons.mpr ⟨hline.1, ih⟩

theorem join_lines_inj {as bs : List String} {p q : String} (has : ∀ a ∈ as, IsLine a.toList)
    (hbs : ∀ b ∈ bs, IsLine b.toList) (hlength : as.length = bs.length)
    (h : join "" as ++ p = join "" bs ++ q) : as = bs ∧ p = q := by
  have hlists := congrArg String.toList h
  rw [String.toList_append, String.toList_append, toList_join_nil, toList_join_nil,
    List.flatMap_def, List.flatMap_def] at hlists
  have hinj := lines_inj (List.forall_mem_map.mpr has) (List.forall_mem_map.mpr hbs)
    (by simpa using hlength) hlists
  have htoList : Function.Injective String.toList := fun _ _ heq => String.toList_injective heq
  exact ⟨List.map_injective_iff.mpr htoList hinj.1, htoList hinj.2⟩

/-- The text that was printed, line by line: which lines read word for word. -/
structure IsPrinted (lexicon : Lexicon) (r : Report) (remarks : List Remark)
    (counts text : String) : Prop where
  cut : ∃ lines errors,
    List.Forall₂ (fun x line => IsLineOf (remarkLine x) (x.IsVerbatim lexicon) line) remarks lines ∧
      List.Forall₂ (fun e line => IsLineOf (errorText e) (IsVerbatimError lexicon e.toList) line)
        r.errors errors ∧
      text = join "" lines ++ counts ++ join "" errors ++ closingText r

theorem IsPrinted.text_eq_iff {lexicon : Lexicon} {r : Report} {remarks : List Remark}
    {counts text : String} (h : IsPrinted lexicon r remarks counts text)
    (hremarks : ∀ x ∈ remarks, x.IsOneLine) (herrors : ∀ e ∈ r.errors, IsClear e) :
    text = verbatimText remarks counts r ↔
      (∀ x ∈ remarks, x.IsVerbatim lexicon) ∧
        ∀ e ∈ r.errors, IsVerbatimError lexicon e.toList := by
  obtain ⟨lines, errors, hlines, hprinted, rfl⟩ := h.cut
  rw [← eq_map_iff_of_forall₂ hlines, ← eq_map_iff_of_forall₂ hprinted]
  constructor
  · intro heq
    unfold verbatimText at heq
    simp only [String.append_assoc] at heq
    have hwanted : ∀ line ∈ remarks.map remarkLine, IsLine line.toList :=
      List.forall_mem_map.mpr fun x hx => (hremarks x hx).isLine_remarkLine
    have herrorLines : ∀ line ∈ r.errors.map errorText, IsLine line.toList :=
      List.forall_mem_map.mpr fun e he => isLine_errorText (herrors e he).not_mem
    -- the lines of findings come first, then the table, then the lines of errors
    obtain ⟨hfirst, hrest⟩ := join_lines_inj (isLine_of_forall₂ hlines) hwanted
      (by rw [List.length_map, hlines.length_eq]) heq
    have htable : join "" errors ++ closingText r = join "" (r.errors.map errorText) ++
        closingText r := by
      apply String.toList_injective
      have hlists := congrArg String.toList hrest
      simp only [String.toList_append] at hlists ⊢
      exact List.append_cancel_left hlists
    obtain ⟨hsecond, -⟩ := join_lines_inj (isLine_of_forall₂ hprinted) herrorLines
      (by rw [List.length_map, hprinted.length_eq]) htable
    exact ⟨hfirst, hsecond⟩
  · rintro ⟨rfl, rfl⟩
    rfl

theorem isMark_of_mem_toString {n : Int} : ∀ c ∈ (toString n).toList, isMark c = false := by
  intro c hc
  rcases Number.isDigit_of_mem_toString hc with rfl | hdigit
  · rfl
  · have hnot (d : Char) (hd : d.isDigit = false) : (c == d) = false := by
      refine beq_eq_false_iff_ne.mpr ?_
      rintro rfl
      rw [hdigit] at hd
      cases hd
    simp only [isMark, hnot ':' rfl, hnot '\\' rfl, hnot '[' rfl, Bool.or_self]

theorem isMark_ofList {l : List Char} (h : l.all (fun c => !isMark c) = true) :
    ∀ c ∈ (String.ofList l).toList, isMark c = false := by
  intro c hc
  rw [String.toList_ofList] at hc
  simpa using List.all_eq_true.mp h c hc

section Console

variable {console : Console} {lexicon : Lexicon} (hconsole : console.Follows lexicon)

include hconsole

theorem line_closing (r : Report) :
    console.line false (toString (r.findings.length : Int) ++ " finding(s) in " ++
      toString (r.trees : Int) ++ " file(s)") = .ok (closingText r) := by
  have hclear : IsClear (toString (r.findings.length : Int) ++ " finding(s) in " ++
      toString (r.trees : Int) ++ " file(s)") :=
    (((isClear_toString _).append (isClear_ofList rfl)).append (isClear_toString _)).append
      (isClear_ofList rfl)
  have hfindings : ∀ c ∈ " finding(s) in ".toList, isMark c = false := isMark_ofList rfl
  have hfiles : ∀ c ∈ " file(s)".toList, isMark c = false := isMark_ofList rfl
  rw [hconsole.line _ hclear, renderLine_of_no_marks]
  · have hend : " file(s)\n" = " file(s)" ++ "\n" := rfl
    rw [closingText, hend, ← String.append_assoc]
  · simp only [String.toList_append, List.forall_mem_append]
    exact ⟨⟨⟨isMark_of_mem_toString, hfindings⟩, isMark_of_mem_toString⟩, hfiles⟩

theorem closingLine_eq_ok {r : Report} {line : String} :
    closingLine console r false = .ok line ↔
      Number.isWritable r.findings.length = true ∧ Number.isWritable r.trees = true ∧
        closingText r = line := by
  unfold closingLine
  constructor
  · intro h
    obtain ⟨findings, hfindings', hrest⟩ := Scan.bind_eq_ok.mp h
    obtain ⟨trees, htrees', hline⟩ := Scan.bind_eq_ok.mp hrest
    obtain ⟨hfindings, rfl⟩ := Number.written_eq_ok.mp (eq_ok_of_mapError hfindings')
    obtain ⟨htrees, rfl⟩ := Number.written_eq_ok.mp (eq_ok_of_mapError htrees')
    exact ⟨hfindings, htrees,
      Except.ok.inj ((line_closing hconsole r).symm.trans (eq_ok_of_mapError hline))⟩
  · rintro ⟨hfindings, htrees, rfl⟩
    have hfindings := Number.written_eq_ok.mpr ⟨hfindings, rfl⟩
    have htrees := Number.written_eq_ok.mpr ⟨htrees, rfl⟩
    exact Scan.bind_eq_ok.mpr ⟨_, congrArg (Except.mapError OutputFault.unwritable) hfindings,
      Scan.bind_eq_ok.mpr ⟨_, congrArg (Except.mapError OutputFault.unwritable) htrees,
        congrArg (Except.mapError OutputFault.markup) (line_closing hconsole r)⟩⟩

omit hconsole in
/-- A finding has its line if it can be worded and placed, and its markup can be read. -/
theorem findingLine_eq_ok {severities : Severities} {f : Finding} {line : String} :
    findingLine console severities false f = .ok line ↔
      ∃ x, remark severities f = .ok x ∧ f.IsPlaced ∧
        console.line false (remarkMarkup console x x.finding.place) = .ok line := by
  unfold findingLine
  constructor
  · intro h
    obtain ⟨x, hx, hrest⟩ := Scan.bind_eq_ok.mp h
    obtain ⟨place, hplace, hline⟩ := Scan.bind_eq_ok.mp hrest
    obtain ⟨hplaced, rfl⟩ := Finding.writtenPlace_eq_ok.mp (eq_ok_of_mapError hplace)
    refine ⟨x, hx, hplaced, ?_⟩
    rw [(remark_eq_ok hx).1]
    exact eq_ok_of_mapError hline
  · rintro ⟨x, hx, hplaced, hline⟩
    rw [(remark_eq_ok hx).1] at hline
    refine Scan.bind_eq_ok.mpr ⟨x, hx, Scan.bind_eq_ok.mpr ⟨f.place, ?_, ?_⟩⟩
    · rw [Finding.writtenPlace_eq_ok.mpr ⟨hplaced, rfl⟩]
      rfl
    · rw [hline]
      rfl

end Console

theorem forall₂_of_common {α β γ : Type} {R : α → β → Prop} {S : α → γ → Prop} {T : β → γ → Prop}
    {as : List α} {bs : List β} {cs : List γ} (hbs : List.Forall₂ R as bs)
    (hcs : List.Forall₂ S as cs) (himp : ∀ a ∈ as, ∀ b c, R a b → S a c → T b c) :
    List.Forall₂ T bs cs := by
  induction hbs generalizing cs with
  | nil =>
    cases hcs
    exact .nil
  | cons hb _ ih =>
    cases hcs with
    | cons hc hcs =>
      rw [List.forall_mem_cons] at himp
      exact .cons (himp.1 _ _ hb hc) (ih hcs himp.2)

/-- A report has a text if its lines and its table have one. -/
theorem textReport_eq_ok {console : Console} {r : Report} {severities : Severities}
    {text : String} :
    textReport console r severities false = .ok text ↔
      ∃ lines counts errors closing,
        r.findings.mapM (findingLine console severities false) = .ok lines ∧
        countsText console r false = .ok counts ∧
        r.errors.mapM (errorLine console false) = .ok errors ∧
        closingLine console r false = .ok closing ∧
        join "" lines ++ counts ++ join "" errors ++ closing = text := by
  unfold textReport
  simp only [Scan.bind_eq_ok]
  constructor
  · rintro ⟨lines, hlines, counts, hcounts, errors, herrors, closing, hclosing, heq⟩
    exact ⟨lines, counts, errors, closing, hlines, hcounts, herrors, hclosing, Except.ok.inj heq⟩
  · rintro ⟨lines, counts, errors, closing, hlines, hcounts, herrors, hclosing, rfl⟩
    exact ⟨lines, hlines, counts, hcounts, errors, herrors, closing, hclosing, rfl⟩

section Report

variable {console : Console} {lexicon : Lexicon} (hconsole : console.Follows lexicon)
  (hplain : lexicon.HasPlainPictures) {r : Report} (h : IsPrintable r) {severities : Severities}

include hconsole hplain h

/-- **When a report has a text.** -/
theorem exists_textReport_iff :
    (∃ text, textReport console r severities false = .ok text) ↔
      IsNumbered r ∧ ∀ f ∈ r.findings, ∀ x, remark severities f = .ok x →
        ¬ClosesNothing x.finding.place.toList x.message.toList := by
  constructor
  · rintro ⟨text, htext⟩
    obtain ⟨lines, counts, errors, closing, hlines, -, -, hclosing, -⟩ := textReport_eq_ok.mp htext
    obtain ⟨hfindings, htrees, -⟩ := (closingLine_eq_ok hconsole).mp hclosing
    have hline : ∀ f ∈ r.findings, ∃ x, remark severities f = .ok x ∧ f.IsPlaced ∧
        ∃ line, console.line false (remarkMarkup console x x.finding.place) = .ok line := by
      intro f hf
      obtain ⟨line, hline⟩ := Scan.succeeds_mapM.mp ⟨lines, hlines⟩ f hf
      obtain ⟨x, hx, hplaced, hprinted⟩ := findingLine_eq_ok.mp hline
      exact ⟨x, hx, hplaced, line, hprinted⟩
    refine ⟨⟨fun f hf => ?_, ?_, hfindings, htrees⟩, fun f hf x hx => ?_⟩
    · obtain ⟨x, -, hplaced, -⟩ := hline f hf
      exact hplaced
    · refine (h.succeeds_remarks_iff severities).mp (Scan.succeeds_mapM.mpr fun f hf => ?_)
      obtain ⟨x, hx, -⟩ := hline f hf
      exact ⟨x, hx⟩
    · obtain ⟨y, hy, -, hprinted⟩ := hline f hf
      cases hx.symm.trans hy
      exact ((h.isOneLine hf hx).exists_line_iff hconsole).mp hprinted
  · rintro ⟨hnumbered, hcloses⟩
    have hremarks := (h.succeeds_remarks_iff severities).mpr hnumbered.filled
    obtain ⟨lines, hlines⟩ :
        Scan.Succeeds (r.findings.mapM (findingLine console severities false)) := by
      refine Scan.succeeds_mapM.mpr fun f hf => ?_
      obtain ⟨x, hx⟩ := Scan.succeeds_mapM.mp hremarks f hf
      obtain ⟨line, hline⟩ :=
        ((h.isOneLine hf hx).exists_line_iff hconsole).mpr (hcloses f hf x hx)
      exact ⟨line, findingLine_eq_ok.mpr ⟨x, hx, hnumbered.placed f hf, hline⟩⟩
    obtain ⟨errors, herrors⟩ : Scan.Succeeds (r.errors.mapM (errorLine console false)) := by
      refine Scan.succeeds_mapM.mpr fun e he => ?_
      obtain ⟨line, hline, -⟩ := exists_errorLine hconsole hplain e (h.errors e he)
      exact ⟨line, hline⟩
    obtain ⟨counts, hcounts⟩ := h.exists_counts console hnumbered.findings
    exact ⟨_, textReport_eq_ok.mpr ⟨lines, counts, errors, _, hlines, hcounts, herrors,
      (closingLine_eq_ok hconsole).mpr ⟨hnumbered.findings, hnumbered.trees, rfl⟩, rfl⟩⟩

variable {remarks : List Remark} {counts : String}
  (hremarks : r.findings.mapM (remark severities) = .ok remarks)
  (hcounts : countsText console r false = .ok counts)

include hremarks hcounts

theorem isPrinted_of_textReport {text : String}
    (htext : textReport console r severities false = .ok text) :
    IsPrinted lexicon r remarks counts text := by
  obtain ⟨lines, counts', errors, closing, hlines, hcounts', herrors, hclosing, rfl⟩ :=
    textReport_eq_ok.mp htext
  cases hcounts.symm.trans hcounts'
  obtain ⟨-, -, rfl⟩ := (closingLine_eq_ok hconsole).mp hclosing
  refine ⟨lines, errors, ?_, ?_, rfl⟩
  · refine forall₂_of_common (forall₂_of_mapM_eq_ok.mp hremarks) (forall₂_of_mapM_eq_ok.mp hlines)
      fun f hf x line hx hline => ?_
    obtain ⟨y, hy, -, hprinted⟩ := findingLine_eq_ok.mp hline
    cases hx.symm.trans hy
    have hone := h.isOneLine hf hx
    refine ⟨hone.isLine hconsole hplain hprinted, ?_⟩
    rw [← hone.line_eq_iff hconsole hplain, hprinted, Except.ok.injEq]
  · refine forall₂_imp_of_mem (forall₂_of_mapM_eq_ok.mp herrors) fun e he line hline => ?_
    obtain ⟨printed, hprinted, hisLine, hiff⟩ := exists_errorLine hconsole hplain e (h.errors e he)
    cases hprinted.symm.trans hline
    exact ⟨hisLine, hiff⟩

theorem textReport_eq_verbatimText_iff (hnumbered : IsNumbered r) :
    textReport console r severities false = .ok (verbatimText remarks counts r) ↔
      (∀ x ∈ remarks, x.IsVerbatim lexicon) ∧
        ∀ e ∈ r.errors, IsVerbatimError lexicon e.toList := by
  have hprinted : ∀ text, textReport console r severities false = .ok text →
      (text = verbatimText remarks counts r ↔ (∀ x ∈ remarks, x.IsVerbatim lexicon) ∧
        ∀ e ∈ r.errors, IsVerbatimError lexicon e.toList) :=
    fun text htext => (isPrinted_of_textReport hconsole hplain h hremarks hcounts htext).text_eq_iff
      (h.isOneLine_of_mapM hremarks) h.errors
  constructor
  · intro htext
    exact (hprinted _ htext).mp rfl
  · intro hverbatim
    obtain ⟨text, htext⟩ : ∃ text, textReport console r severities false = .ok text := by
      refine (exists_textReport_iff hconsole hplain h).mpr ⟨hnumbered, fun f hf x hx hcloses => ?_⟩
      have hmem : x ∈ remarks := (Scan.mem_iff_of_mapM_eq_ok hremarks).mpr ⟨f, hf, hx⟩
      exact (hverbatim.1 x hmem).apart hcloses.bridges
    rw [htext, (hprinted text htext).mpr hverbatim]

end Report

/-- **What the text of a report shows of its findings and errors.** On every console that reads
markup, a report has a text if and only if its numbers can be written and no closing tag bridges the
place and the message of a finding. The text has a line for each finding, the table and a line for
each error, in order, and a line reads word for word if and only if nothing in it is read as a tag,
no backslash is dropped or doubled and no picture is named. -/
theorem textReport_verbatim_iff {console : Console} {lexicon : Lexicon}
    (hconsole : console.Follows lexicon) (hplain : lexicon.HasPlainPictures) {r : Report}
    (h : IsPrintable r) (severities : Severities) :
    ((∃ text, textReport console r severities false = .ok text) ↔
      IsNumbered r ∧ ∀ f ∈ r.findings, ∀ x, remark severities f = .ok x →
        ¬ClosesNothing x.finding.place.toList x.message.toList) ∧
    (IsNumbered r → ∃ remarks counts, r.findings.mapM (remark severities) = .ok remarks ∧
      countsText console r false = .ok counts ∧
      (∀ text, textReport console r severities false = .ok text →
        IsPrinted lexicon r remarks counts text) ∧
      (textReport console r severities false = .ok (verbatimText remarks counts r) ↔
        (∀ x ∈ remarks, x.IsVerbatim lexicon) ∧
          ∀ e ∈ r.errors, IsVerbatimError lexicon e.toList)) := by
  refine ⟨exists_textReport_iff hconsole hplain h, fun hnumbered => ?_⟩
  obtain ⟨remarks, hremarks⟩ := (h.succeeds_remarks_iff severities).mpr hnumbered.filled
  obtain ⟨counts, hcounts⟩ := h.exists_counts console hnumbered.findings
  refine ⟨remarks, counts, hremarks, hcounts, fun text htext => ?_, ?_⟩
  · exact isPrinted_of_textReport hconsole hplain h hremarks hcounts htext
  · exact textReport_eq_verbatimText_iff hconsole hplain h hremarks hcounts hnumbered

/-- The message that a new object of a type gets. -/
theorem message_of_directInstantiation {severities : Severities} {path type : String}
    {span : Code.Span} {x : Remark}
    (h : remark severities ⟨"SEAM001", path, span, [.text type]⟩ = .ok x) :
    x.message.toList = "Direct instantiation of '".toList ++ (type.toList ++
      "' creates a hard dependency that prevents seam injection".toList) := by
  obtain ⟨-, d, hd, hfill⟩ := remark_eq_ok h
  have hdescribe : describe "SEAM001" = .ok directInstantiationDescriptor := by
    have hmem : directInstantiationDescriptor ∈ descriptors := List.mem_cons_self
    unfold describe
    rw [show "SEAM001" = directInstantiationDescriptor.id from rfl, descriptor?_of_mem hmem]
  cases hdescribe.symm.trans hd
  have hjoin : Template.fill directInstantiationDescriptor.template [.text type] = .ok
      (join "" ["Direct instantiation of '", type,
        "' creates a hard dependency that prevents seam injection"]) := rfl
  rw [← Except.ok.inj (hjoin.symm.trans hfill), toList_join_nil]
  simp

/-- In a report whose findings can be shown, only the numbers of places and the counts are left. -/
theorem IsPrintable.isNumbered {r : Report} (h : IsPrintable r)
    (hshowable : ∀ f ∈ r.findings, f.isShowable = true) (hplaced : ∀ f ∈ r.findings, f.IsPlaced)
    (hfindings : Number.isWritable r.findings.length = true)
    (htrees : Number.isWritable r.trees = true) : IsNumbered r := by
  refine ⟨hplaced, fun f hf d hd hid => ?_, hfindings, htrees⟩
  obtain ⟨d', hd', hid', hfits⟩ := h.worded f hf
  obtain rfl : d = d' := by
    have hfound := descriptor?_of_mem hd
    rw [hid, ← hid', descriptor?_of_mem hd'] at hfound
    exact (Option.some.inj hfound).symm
  exact isFilled_of_fits hfits (List.all_eq_true.mp (hshowable f hf))

/-- A lexicon with one picture. -/
def hundredLexicon : Lexicon := .ofPictures [("100", "💯")]

theorem hasPlainPictures_hundredLexicon : hundredLexicon.HasPlainPictures := by
  intro name shown hshown
  obtain ⟨picture, hlookup, rfl⟩ := Option.map_eq_some_iff.mp hshown
  have hpicture : picture = "💯" := by
    rw [List.lookup_cons] at hlookup
    split at hlookup
    · exact (Option.some.inj hlookup).symm
    · cases hlookup
  have htext : "💯".toList = ['💯'] := by simp
  rw [hpicture, htext, List.forall_mem_singleton]
  exact ⟨rfl, by decide⟩

/-- A report with brackets, backslashes and colons in all its texts. -/
def bracketedReport : Report where
  findings := [⟨"SEAM001", "C:/[gen]/a\\b.cs", ⟨5, 3, 5, 9⟩, [.text "Map[int]\\[x]"]⟩]
  trees := 1
  errors := ["a\\b: [/red] is not closed"]

theorem isPrintable_bracketedReport : IsPrintable bracketedReport := by
  refine ⟨?_, ?_, ?_, ?_⟩
  · exact List.forall_mem_singleton.mpr
      ⟨directInstantiationDescriptor, List.mem_cons_self, rfl, rfl⟩
  · exact List.forall_mem_singleton.mpr (isClear_ofList rfl)
  · refine List.forall_mem_singleton.mpr fun s hs => ?_
    obtain rfl := Argument.text.inj (List.mem_singleton.mp hs)
    exact isClear_ofList rfl
  · exact List.forall_mem_singleton.mpr (isClear_ofList rfl)

theorem isNumbered_bracketedReport : IsNumbered bracketedReport :=
  isPrintable_bracketedReport.isNumbered (List.forall_mem_singleton.mpr rfl)
    (List.forall_mem_singleton.mpr
      ⟨Number.isWritable_of_small (by decide), Number.isWritable_of_small (by decide)⟩)
    (Number.isWritable_of_small (by decide)) (Number.isWritable_of_small (by decide))

theorem textReport_verbatim_iff_brackets :
    IsPrintable bracketedReport ∧ ∃ remarks counts,
      bracketedReport.findings.mapM (remark []) = .ok remarks ∧
      countsText (.ofLexicon hundredLexicon) bracketedReport false = .ok counts ∧
      textReport (.ofLexicon hundredLexicon) bracketedReport [] false =
        .ok (verbatimText remarks counts bracketedReport) := by
  obtain ⟨remarks, counts, hremarks, hcounts, -, hverbatim⟩ :=
    (textReport_verbatim_iff (follows_ofLexicon hundredLexicon) hasPlainPictures_hundredLexicon
      isPrintable_bracketedReport []).2 isNumbered_bracketedReport
  refine ⟨isPrintable_bracketedReport, remarks, counts, hremarks, hcounts, hverbatim.mpr ⟨?_, ?_⟩⟩
  · intro x hx
    obtain ⟨f, hf, hremark⟩ := (Scan.mem_iff_of_mapM_eq_ok hremarks).mp hx
    obtain rfl := List.mem_singleton.mp hf
    have hmessage := message_of_directInstantiation hremark
    have hfinding := (remark_eq_ok hremark).1
    refine ⟨?_, ?_⟩
    · rintro ⟨-, hcloses⟩
      rw [closesTag_iff, hmessage] at hcloses
      revert hcloses
      decide +kernel
    · rw [hmessage, hfinding, toList_place]
      decide +kernel
  · refine List.forall_mem_singleton.mpr ⟨?_, by decide +kernel⟩
    exact not_endsInLoneSlash (by decide)

/-- A report with a finding in line 100. -/
def hundredReport : Report where
  findings := [⟨"SEAM006", "a.cs", ⟨100, 3, 100, 9⟩, []⟩]
  trees := 1

/-- A report whose finding has half a tag in its path and the other half in its message. -/
def bridgedReport : Report where
  findings := [⟨"SEAM001", "[/a.cs", ⟨5, 3, 5, 9⟩, [.text "x]"]⟩]
  trees := 1

theorem isPrintable_hundredReport : IsPrintable hundredReport := by
  refine ⟨?_, ?_, ?_, List.forall_mem_nil _⟩
  · refine List.forall_mem_singleton.mpr ⟨guidCreationDescriptor, ?_, rfl, rfl⟩
    exact List.mem_map.mpr ⟨guidCreation, by simp [catalog], rfl⟩
  · exact List.forall_mem_singleton.mpr (isClear_ofList rfl)
  · exact List.forall_mem_singleton.mpr fun s hs => absurd hs List.not_mem_nil

theorem isNumbered_hundredReport : IsNumbered hundredReport :=
  isPrintable_hundredReport.isNumbered (List.forall_mem_singleton.mpr rfl)
    (List.forall_mem_singleton.mpr ⟨Number.isWritable_iff.mpr (lt_of_lt_of_le
      (by decide : (100 : Int).natAbs < 10 ^ 3) (Nat.pow_le_pow_right (by decide) (by decide))),
      Number.isWritable_of_small (by decide)⟩)
    (Number.isWritable_of_small (by decide)) (Number.isWritable_of_small (by decide))

theorem isPrintable_bridgedReport : IsPrintable bridgedReport := by
  refine ⟨?_, ?_, ?_, List.forall_mem_nil _⟩
  · exact List.forall_mem_singleton.mpr
      ⟨directInstantiationDescriptor, List.mem_cons_self, rfl, rfl⟩
  · exact List.forall_mem_singleton.mpr (isClear_ofList rfl)
  · refine List.forall_mem_singleton.mpr fun s hs => ?_
    obtain rfl := Argument.text.inj (List.mem_singleton.mp hs)
    exact isClear_ofList rfl

theorem isNumbered_bridgedReport : IsNumbered bridgedReport :=
  isPrintable_bridgedReport.isNumbered (List.forall_mem_singleton.mpr rfl)
    (List.forall_mem_singleton.mpr
      ⟨Number.isWritable_of_small (by decide), Number.isWritable_of_small (by decide)⟩)
    (Number.isWritable_of_small (by decide)) (Number.isWritable_of_small (by decide))

/-- A finding in line 100 is printed with a picture, if there is one of that name, and half a tag in
a path can keep a report from being printed. -/
theorem text_not_verbatim :
    (IsPrintable hundredReport ∧ IsNumbered hundredReport ∧ ∀ remarks counts,
      hundredReport.findings.mapM (remark []) = .ok remarks →
      countsText (.ofLexicon hundredLexicon) hundredReport false = .ok counts →
      textReport (.ofLexicon hundredLexicon) hundredReport [] false ≠
        .ok (verbatimText remarks counts hundredReport)) ∧
    (IsPrintable bridgedReport ∧ IsNumbered bridgedReport ∧
      ∀ text, textReport (.ofLexicon hundredLexicon) bridgedReport [] false ≠ .ok text) := by
  have hconsole := follows_ofLexicon hundredLexicon
  have hplain := hasPlainPictures_hundredLexicon
  refine ⟨⟨isPrintable_hundredReport, isNumbered_hundredReport,
    fun remarks counts hremarks hcounts htext => ?_⟩,
    isPrintable_bridgedReport, isNumbered_bridgedReport, fun text htext => ?_⟩
  · rw [textReport_eq_verbatimText_iff hconsole hplain isPrintable_hundredReport hremarks hcounts
      isNumbered_hundredReport] at htext
    obtain ⟨x, hremark⟩ :=
      Scan.succeeds_mapM.mp ⟨remarks, hremarks⟩ _ (List.mem_singleton.mpr rfl)
    have hx : x ∈ remarks :=
      (Scan.mem_iff_of_mapM_eq_ok hremarks).mpr ⟨_, List.mem_singleton.mpr rfl, hremark⟩
    have hplace : x.finding.place.toList = ['a', '.', 'c', 's', ':', '1', '0', '0', ':', '3'] := by
      rw [(remark_eq_ok hremark).1]
      rfl
    have hshown := (htext.1 x hx).shown
    rw [hplace] at hshown
    have hname : ∀ c ∈ ['1', '0', '0'], isNameChar c = true := List.all_eq_true.mp rfl
    have hclear : ∀ c ∈ ['a', '.', 'c', 's'] ++ ':' :: ['1', '0', '0'], c ≠ '\\' ∧ c ≠ '[' := by
      simp
    exact not_isShownAsIs_of_picture hplain hclear (by simp) hname rfl hshown
  · have hcloses :=
      ((exists_textReport_iff hconsole hplain isPrintable_bridgedReport).mp ⟨text, htext⟩).2
    obtain ⟨remarks, hremarks⟩ := (isPrintable_bridgedReport.succeeds_remarks_iff []).mpr
      isNumbered_bridgedReport.filled
    obtain ⟨x, hremark⟩ :=
      Scan.succeeds_mapM.mp ⟨remarks, hremarks⟩ _ (List.mem_singleton.mpr rfl)
    have hplace : x.finding.place.toList =
        '[' :: '/' :: ['a', '.', 'c', 's', ':', '5', ':', '3'] := by
      rw [(remark_eq_ok hremark).1]
      rfl
    have hmessage : x.message.toList = "Direct instantiation of 'x".toList ++ ']' ::
        "' creates a hard dependency that prevents seam injection".toList := by
      rw [message_of_directInstantiation hremark]
      simp
    refine hcloses _ (List.mem_singleton.mpr rfl) x hremark
      ⟨0, [], _, _, _, rfl, hplace, hmessage, by simp, rfl, ?_⟩
    simp [isInside]

end SeamLint.Output
