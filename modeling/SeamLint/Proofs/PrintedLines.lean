import SeamLint.Output.Plain
import SeamLint.Proofs.BridgingTags

set_option autoImplicit false

/-! # The lines of findings and errors

The line of a finding is to read `severity id place: message`, and that of an error `error text`,
whatever their texts hold. On a console that reads markup (`Console.Follows`) both lines begin as
they should, and the rest of them reads word for word exactly if no tag bridges place and message,
no backslash is lost or doubled and no picture is named (`Remark.IsVerbatim`, `IsVerbatimError`).
-/

namespace SeamLint.Finding

/-- The place of a finding, whatever its numbers. -/
def place (f : Finding) : String := s!"{f.path}:{f.span.startLine}:{f.span.startColumn}"

end SeamLint.Finding

namespace SeamLint.Output

open SeamLint.Text SeamLint.Finding

/-! ## Consoles that read markup -/

/-- A control character, line breaks and tabs included. -/
def isControl (c : Char) : Bool := c.toNat < 0x20 || (0x7f ≤ c.toNat && c.toNat < 0xa0)

/-- The text has no control characters. -/
def IsClear (s : String) : Prop := ∀ c ∈ s.toList, isControl c = false

/-- The console escapes texts as markup wants it, and reads lines without control characters as
markup, without colours. -/
structure Console.Follows (console : Console) (lexicon : Lexicon) : Prop where
  escape : ∀ s, console.escape s = Output.escape s
  line : ∀ s, IsClear s → console.line false s = renderLine lexicon false s

theorem follows_ofLexicon (lexicon : Lexicon) : (Console.ofLexicon lexicon).Follows lexicon :=
  ⟨fun _ => rfl, fun _ _ => rfl⟩

theorem IsClear.not_mem {s : String} (h : IsClear s) : '\n' ∉ s.toList :=
  fun hmem => absurd (h _ hmem) (by decide)

theorem isClear_ofList {cs : List Char} (h : cs.all (fun c => !isControl c) = true) :
    IsClear (String.ofList cs) := by
  intro c hc
  rw [String.toList_ofList] at hc
  simpa using List.all_eq_true.mp h c hc

theorem isClear_append {s t : String} : IsClear (s ++ t) ↔ IsClear s ∧ IsClear t := by
  simp only [IsClear, String.toList_append, List.forall_mem_append]

theorem IsClear.append {s t : String} (hs : IsClear s) (ht : IsClear t) : IsClear (s ++ t) :=
  isClear_append.mpr ⟨hs, ht⟩

theorem IsClear.escape {s : String} (h : IsClear s) : IsClear (escape s) := by
  intro c hc
  rcases mem_escape hc with rfl | hmem
  · rfl
  · exact h c hmem

theorem IsClear.styled {style text : String} (hstyle : IsClear style) (htext : IsClear text) :
    IsClear (styled style text) := by
  have hparts : Output.styled style text =
      "[" ++ style ++ "]" ++ text ++ "[/" ++ style ++ "]" := rfl
  rw [hparts]
  exact (((((isClear_ofList rfl).append hstyle).append (isClear_ofList rfl)).append htext).append
    (isClear_ofList rfl)).append hstyle |>.append (isClear_ofList rfl)

/-! ## Words in a style -/

/-- The tag opens a style and the tag with a slash closes it again. -/
structure IsStyle (lexicon : Lexicon) (style : List Char) : Prop where
  opening : isTagText style = true
  closing : isTagText ('/' :: style) = true
  applied : ∃ tag, ∀ position, applyTag lexicon [] position style = .ok [tag] ∧
    applyTag lexicon [tag] position ('/' :: style) = .ok []

/-- A style that is named without blanks around it and without parameters. -/
theorem isStyle_of_name (lexicon : Lexicon) {c : Char} {cs : List Char} (hc : c ≠ '/')
    (hopening : isTagText (c :: cs) = true) (hclosing : isTagText ('/' :: c :: cs) = true)
    (hname : tagName (c :: cs) = c :: cs) (hparameters : tagParameters (c :: cs) = [])
    (htrim : trim (c :: cs) = c :: cs) : IsStyle lexicon (c :: cs) := by
  refine ⟨hopening, hclosing, ⟨lexicon.style (c :: cs), []⟩, fun position => ⟨?_, ?_⟩⟩
  · unfold applyTag
    rw [hname, hparameters]
    split
    case h_1 name heq => exact absurd (List.cons.inj heq).1 hc
    case h_2 => rfl
  · have hslash : tagName ('/' :: c :: cs) = '/' :: tagName (c :: cs) := rfl
    unfold applyTag
    rw [hslash, hname]
    simp [htrim, closeTag]

theorem isStyle_severityStyle (lexicon : Lexicon) (s : Severity) :
    IsStyle lexicon (severityStyle s).toList := by
  cases s <;> exact isStyle_of_name lexicon (by decide) rfl rfl rfl rfl rfl

theorem isStyle_bold (lexicon : Lexicon) : IsStyle lexicon "bold".toList :=
  isStyle_of_name lexicon (by decide) rfl rfl rfl rfl rfl

theorem isStyle_red (lexicon : Lexicon) : IsStyle lexicon "red".toList :=
  isStyle_of_name lexicon (by decide) rfl rfl rfl rfl rfl

/-- A word: letters and digits only. -/
def IsWord (s : List Char) : Prop := ∀ c ∈ s, c.isAlphanum = true

theorem IsWord.not_mem {s : List Char} (h : IsWord s) {c : Char} (hc : c.isAlphanum = false) :
    c ∉ s := by
  intro hmem
  rw [h c hmem] at hc
  cases hc

theorem isControl_of_isAlphanum {c : Char} (h : c.isAlphanum = true) : isControl c = false := by
  have hrange : ((65 ≤ c.toNat ∧ c.toNat ≤ 90) ∨ (97 ≤ c.toNat ∧ c.toNat ≤ 122)) ∨
      (48 ≤ c.toNat ∧ c.toNat ≤ 57) := by
    delta Char.isAlphanum Char.isAlpha Char.isUpper Char.isLower Char.isDigit at h
    simpa [UInt32.le_iff_toNat_le] using h
  simp only [isControl, Bool.or_eq_false_iff, Bool.and_eq_false_iff, decide_eq_false_iff_not]
  omega

theorem IsWord.isClear {s : String} (h : IsWord s.toList) : IsClear s :=
  fun c hc => isControl_of_isAlphanum (h c hc)

section Lexicon

variable {lexicon : Lexicon}

theorem literal_of_isWord {s : List Char} (h : IsWord s) : literal lexicon s = s := by
  refine literal_of_isPlainPiece ⟨fun hpair => ?_, replaceNames_of_no_colon (h.not_mem rfl)⟩
  have hslash : '\\' ∈ s := hpair.subset (by simp)
  exact h.not_mem rfl hslash

/-- A word in a style, and a blank, as items. -/
def styledItems (style word : List Char) : List Item :=
  .tag 0 style :: (word.map .plain ++ [.tag 0 ('/' :: style), .plain ' '])

theorem reads_styled {style word : String} (hstyle : IsStyle lexicon style.toList)
    (hword : IsWord word.toList) {rest : List Char} {js : List Item} (hrest : Reads rest js) :
    Reads ((styled style word ++ " ").toList ++ rest)
      (styledItems style.toList word.toList ++ js) := by
  have hchars : (styled style word ++ " ").toList ++ rest =
      bracket style.toList ++
        (word.toList ++ (bracket ('/' :: style.toList) ++ ([' '] ++ rest))) := by
    have hstyled : styled style word = "[" ++ style ++ "]" ++ word ++ "[/" ++ style ++ "]" := rfl
    simp [hstyled, bracket]
  have hplain : ∀ c ∈ word.toList, c ≠ '\\' ∧ c ≠ '[' := by
    intro c hc
    constructor
    · rintro rfl
      exact hword.not_mem rfl hc
    · rintro rfl
      exact hword.not_mem rfl hc
  have hblank : Reads ([' '] ++ rest) (.plain ' ' :: js) :=
    .plain (frontTag?_of_plain (by decide) (by decide) rest) hrest
  rw [hchars]
  unfold styledItems
  simp only [List.cons_append, List.append_assoc, List.nil_append]
  exact reads_bracket_append hstyle.opening
    (reads_plain_append hplain (reads_bracket_append hstyle.closing hblank))

/-- A word in a style is printed as it is, after what stands in front of it. -/
theorem renderItems_styled {style word : List Char} (hstyle : IsStyle lexicon style)
    (hword : IsWord word) (position : Nat) (before : List Char) (js : List Item) :
    ∃ next, renderItems lexicon [] position before (styledItems style word ++ js) =
      (renderItems lexicon [] next [' '] js).map (literal lexicon before.reverse ++ word ++ ·) := by
  obtain ⟨tag, htag⟩ := hstyle.applied
  have hsplit : styledItems style word ++ js =
      .tag 0 style :: (word.map .plain ++ (.tag 0 ('/' :: style) :: .plain ' ' :: js)) := by
    simp [styledItems]
  rw [hsplit]
  refine ⟨position + 0 + style.length + 2 + word.length + 0 + ('/' :: style).length + 2 + 1, ?_⟩
  rw [renderItems, if_neg (by decide), (htag _).1]
  show Except.map _ (renderItems lexicon [tag] _ [] _) = _
  rw [renderItems_plain, renderItems, if_neg (by decide), (htag _).2]
  show Except.map _ (Except.map _ (renderItems lexicon [] _ [] (.plain ' ' :: js))) = _
  rw [renderItems]
  cases renderItems lexicon [] _ [' '] js with
  | error fault => rfl
  | ok text =>
    show Except.ok _ = Except.ok _
    simp [literal_of_isWord hword]

/-! ## Lines -/

/-- The text ends with its only line break. -/
def IsLine (s : List Char) : Prop := ∃ body, s = body ++ ['\n'] ∧ '\n' ∉ body

theorem line_inj {a b p q : List Char} (ha : '\n' ∉ a) (hb : '\n' ∉ b)
    (h : a ++ '\n' :: p = b ++ '\n' :: q) : a = b ∧ p = q := by
  induction a generalizing b with
  | nil =>
    cases b with
    | nil => exact ⟨rfl, (List.cons.inj h).2⟩
    | cons c b => exact absurd (List.mem_cons.mpr (Or.inl (List.cons.inj h).1)) hb
  | cons c a ih =>
    cases b with
    | nil => exact absurd (List.mem_cons.mpr (Or.inl (List.cons.inj h).1.symm)) ha
    | cons d b =>
      obtain ⟨rfl, hrest⟩ := List.cons.inj h
      obtain ⟨rfl, rfl⟩ :=
        ih (List.not_mem_of_not_mem_cons ha) (List.not_mem_of_not_mem_cons hb) hrest
      exact ⟨rfl, rfl⟩

/-- Lines can be told apart in a text. -/
theorem lines_inj {as bs : List (List Char)} {p q : List Char} (has : ∀ a ∈ as, IsLine a)
    (hbs : ∀ b ∈ bs, IsLine b) (hlength : as.length = bs.length)
    (h : as.flatten ++ p = bs.flatten ++ q) : as = bs ∧ p = q := by
  induction as generalizing bs with
  | nil =>
    obtain rfl := List.length_eq_zero_iff.mp hlength.symm
    exact ⟨rfl, h⟩
  | cons a as ih =>
    cases bs with
    | nil => cases hlength
    | cons b bs =>
      rw [List.forall_mem_cons] at has hbs
      obtain ⟨⟨a, rfl, ha⟩, has⟩ := has
      obtain ⟨⟨b, rfl, hb⟩, hbs⟩ := hbs
      have heq : a ++ '\n' :: (as.flatten ++ p) = b ++ '\n' :: (bs.flatten ++ q) := by
        simpa using h
      obtain ⟨rfl, hrest⟩ := line_inj ha hb heq
      obtain ⟨rfl, rfl⟩ := ih has hbs (Nat.succ.inj hlength) hrest
      exact ⟨rfl, rfl⟩

/-- A line is one line if its markup is. -/
theorem isLine_of_renderLine (hplain : lexicon.HasPlainPictures) {s line : String}
    (hs : '\n' ∉ s.toList) (h : renderLine lexicon false s = .ok line) : IsLine line.toList := by
  rw [renderLine_eq] at h
  obtain ⟨text, htext, rfl⟩ := map_eq_ok h
  refine ⟨text, String.toList_ofList, fun hmem => ?_⟩
  have hpictures : ∀ name shown, lexicon.picture? name = some shown → ∀ c ∈ shown, c ≠ '\n' :=
    fun name shown hshown c hc => (hplain name shown hshown c hc).2
  have hitems : ∀ i ∈ items s.toList, ∀ c ∈ i.source, c ≠ '\n' := by
    rintro i hi c hc rfl
    refine hs ?_
    rw [← flatMap_source_of_reads (reads_items s.toList)]
    exact List.mem_flatMap.mpr ⟨i, hi, hc⟩
  exact forall_mem_of_renderItems hpictures (List.forall_mem_nil _) hitems htext _ hmem rfl

/-- A text in which nothing means anything to markup is printed as it is. -/
theorem renderLine_of_no_marks {s : String} (h : ∀ c ∈ s.toList, isMark c = false) :
    renderLine lexicon false s = .ok (s ++ "\n") := by
  have hnot (c : Char) (hc : isMark c = true) : c ∉ s.toList := fun hmem => by
    rw [h c hmem] at hc
    cases hc
  have hreads : Reads (s.toList ++ []) (s.toList.map .plain ++ []) := by
    refine reads_plain_append (fun c hc => ⟨?_, ?_⟩) .nil
    · rintro rfl
      exact hnot _ rfl hc
    · rintro rfl
      exact hnot _ rfl hc
  have hliteral : literal lexicon s.toList = s.toList := by
    refine literal_of_isPlainPiece ⟨fun hpair => ?_, replaceNames_of_no_colon (hnot _ rfl)⟩
    exact hnot '\\' rfl (hpair.subset (by simp))
  rw [List.append_nil] at hreads
  rw [renderLine_eq, items_eq_iff.mpr hreads, renderItems_plain, renderItems, List.append_nil,
    List.reverse_reverse, hliteral]
  show Except.ok _ = Except.ok _
  rw [Except.ok.injEq, ← String.toList_inj, String.toList_ofList, String.toList_append]
  rfl

/-! ## The line of a finding -/

/-- The line of a finding, word for word. -/
def remarkLine (x : Remark) : String :=
  x.severity.name ++ " " ++ x.finding.ruleId ++ " " ++ x.finding.place ++ ": " ++ x.message ++ "\n"

/-- What is said about a finding holds no control characters and does not end in a backslash. -/
structure Remark.IsOneLine (x : Remark) : Prop where
  id : IsWord x.finding.ruleId.toList
  place : IsClear x.finding.place
  message : IsClear x.message
  place_end : x.finding.place.toList.getLast? ≠ some '\\'
  message_end : x.message.toList.getLast? ≠ some '\\'

/-- A remark that is printed word for word. -/
structure Remark.IsVerbatim (lexicon : Lexicon) (x : Remark) : Prop where
  apart : ¬Bridges x.finding.place.toList x.message.toList
  shown : IsShownAsIs lexicon (bodyText x.finding.place.toList x.message.toList)

theorem not_endsInLoneSlash {s : List Char} (h : s.getLast? ≠ some '\\') : ¬EndsInLoneSlash s := by
  rintro ⟨before, rfl, -⟩
  exact h List.getLast?_concat

theorem isWord_name (s : Severity) : IsWord s.name.toList := by
  have hall : s.name.toList.all Char.isAlphanum = true := by cases s <;> rfl
  exact List.all_eq_true.mp hall

theorem toList_remarkLine (x : Remark) :
    (remarkLine x).toList = x.severity.name.toList ++ ' ' :: x.finding.ruleId.toList ++
      ' ' :: bodyText x.finding.place.toList x.message.toList ++ ['\n'] := by
  simp [remarkLine, bodyText]

section Remark

variable {console : Console} (hconsole : console.Follows lexicon) {x : Remark} (h : x.IsOneLine)

include hconsole h

theorem Remark.IsOneLine.toList_remarkMarkup :
    (remarkMarkup console x x.finding.place).toList =
      (styled (severityStyle x.severity) x.severity.name ++ " ").toList ++
        ((styled "bold" x.finding.ruleId ++ " ").toList ++
          escapedBody x.finding.place.toList x.message.toList) := by
  unfold remarkMarkup escapedBody
  rw [hconsole.escape, hconsole.escape,
    ← toList_escape_of_not_loneSlash (not_endsInLoneSlash h.place_end),
    ← toList_escape_of_not_loneSlash (not_endsInLoneSlash h.message_end)]
  simp

theorem Remark.IsOneLine.isClear_remarkMarkup :
    IsClear (remarkMarkup console x x.finding.place) := by
  have hstyle : IsClear (severityStyle x.severity) := by
    cases x.severity <;> exact isClear_ofList rfl
  have hseverity := hstyle.styled (isWord_name x.severity).isClear
  have hid : IsClear (styled "bold" x.finding.ruleId) := (isClear_ofList rfl).styled h.id.isClear
  unfold remarkMarkup
  rw [hconsole.escape, hconsole.escape]
  exact (((((hseverity.append (isClear_ofList rfl)).append hid).append (isClear_ofList rfl)).append
    h.place.escape).append (isClear_ofList rfl)).append h.message.escape

/-- The line of a finding begins with its severity and the id of its rule. -/
theorem Remark.IsOneLine.line_eq :
    ∃ next, console.line false (remarkMarkup console x x.finding.place) =
      (renderItems lexicon [] next [' ']
        (items (escapedBody x.finding.place.toList x.message.toList))).map fun text =>
          String.ofList
            (x.severity.name.toList ++ ' ' :: x.finding.ruleId.toList ++ text ++ ['\n']) := by
  have hid := reads_styled (isStyle_bold lexicon) h.id
    (reads_items (escapedBody x.finding.place.toList x.message.toList))
  have hreads :=
    reads_styled (isStyle_severityStyle lexicon x.severity) (isWord_name x.severity) hid
  rw [hconsole.line _ (h.isClear_remarkMarkup hconsole), renderLine_eq,
    h.toList_remarkMarkup hconsole, items_eq_iff.mpr hreads]
  obtain ⟨next, hseverity⟩ := renderItems_styled (isStyle_severityStyle lexicon x.severity)
    (isWord_name x.severity) 0 [] (styledItems "bold".toList x.finding.ruleId.toList ++
      items (escapedBody x.finding.place.toList x.message.toList))
  obtain ⟨next, hid⟩ := renderItems_styled (isStyle_bold lexicon) h.id next [' ']
    (items (escapedBody x.finding.place.toList x.message.toList))
  refine ⟨next, ?_⟩
  rw [hseverity, hid]
  have hblank : literal lexicon [' '] = [' '] := rfl
  have hnothing : literal lexicon [] = [] := rfl
  cases renderItems lexicon [] next [' ']
    (items (escapedBody x.finding.place.toList x.message.toList)) with
  | error fault => rfl
  | ok text =>
    show Except.ok _ = Except.ok _
    simp [hblank, hnothing]

theorem Remark.IsOneLine.exists_line_iff :
    (∃ line, console.line false (remarkMarkup console x x.finding.place) = .ok line) ↔
      ¬ClosesNothing x.finding.place.toList x.message.toList := by
  obtain ⟨next, hline⟩ := h.line_eq hconsole
  rw [hline, ← exists_rendered_body_iff lexicon next]
  cases renderItems lexicon [] next [' ']
    (items (escapedBody x.finding.place.toList x.message.toList)) with
  | error fault => exact iff_of_false nofun nofun
  | ok text => exact iff_of_true ⟨_, rfl⟩ ⟨_, rfl⟩

variable (hplain : lexicon.HasPlainPictures)

include hplain

theorem Remark.IsOneLine.isLine {line : String}
    (hline : console.line false (remarkMarkup console x x.finding.place) = .ok line) :
    IsLine line.toList := by
  have hclear := h.isClear_remarkMarkup hconsole
  rw [hconsole.line _ hclear] at hline
  exact isLine_of_renderLine hplain hclear.not_mem hline

/-- **When the line of a finding shows it word for word.** -/
theorem Remark.IsOneLine.line_eq_iff :
    console.line false (remarkMarkup console x x.finding.place) = .ok (remarkLine x) ↔
      x.IsVerbatim lexicon := by
  obtain ⟨next, hline⟩ := h.line_eq hconsole
  have hiff : x.IsVerbatim lexicon ↔ ¬Bridges x.finding.place.toList x.message.toList ∧
      IsShownAsIs lexicon (bodyText x.finding.place.toList x.message.toList) :=
    ⟨fun hx => ⟨hx.apart, hx.shown⟩, fun hx => ⟨hx.1, hx.2⟩⟩
  rw [hline, hiff, ← renderItems_body_iff hplain next]
  cases renderItems lexicon [] next [' ']
    (items (escapedBody x.finding.place.toList x.message.toList)) with
  | error fault => exact iff_of_false nofun nofun
  | ok text =>
    show Except.ok _ = Except.ok _ ↔ _
    rw [Except.ok.injEq, Except.ok.injEq, ← String.toList_inj, String.toList_ofList,
      toList_remarkLine, List.append_cancel_right_eq, List.append_cancel_left_eq]

end Remark

theorem Remark.IsOneLine.isLine_remarkLine {x : Remark} (h : x.IsOneLine) :
    IsLine (remarkLine x).toList := by
  refine ⟨_, toList_remarkLine x, ?_⟩
  have hname : '\n' ∉ x.severity.name.toList := (isWord_name x.severity).not_mem rfl
  have hid : '\n' ∉ x.finding.ruleId.toList := h.id.not_mem rfl
  simp [bodyText, hname, hid, h.place.not_mem, h.message.not_mem]

/-! ## The line of an error -/

/-- The line of an error, word for word. -/
def errorText (error : String) : String := "error " ++ error ++ "\n"

/-- An error that is printed word for word. -/
structure IsVerbatimError (lexicon : Lexicon) (s : List Char) : Prop where
  ending : ¬EndsInLoneSlash s
  shown : IsShownAsIs lexicon s

theorem exists_escaped_items (hplain : lexicon.HasPlainPictures) (s : String) :
    ∃ text : List Char,
      (∀ position, renderItems lexicon [] position [' '] (items (escape s).toList) =
        .ok (' ' :: text)) ∧ (text = s.toList ↔ IsVerbatimError lexicon s.toList) := by
  by_cases hlone : EndsInLoneSlash s.toList
  · -- the backslash at the end was doubled
    have hreads : Reads (escape s).toList
        ((items s.toList ++ [Item.plain '\\']).map (Item.withSlashes escapes)) := by
      rw [toList_escape_of_loneSlash hlone, List.map_append]
      exact reads_rewritten_append (reads_items s.toList) reads_slash apart_slash
    refine ⟨shownItems lexicon [] (items s.toList) ++ ['\\'], fun position => ?_, ?_⟩
    · rw [items_eq_iff.mpr hreads, renderItems_escaped, shownItems_blank, shownItems_append_slash]
    · refine iff_of_false (fun heq => ?_) fun h => h.ending hlone
      obtain ⟨before, hs, hbefore⟩ := hlone
      have hitems : items s.toList = items before ++ [.plain '\\'] := by
        rw [hs]
        exact items_eq_iff.mpr (reads_append (reads_items before) reads_slash apart_slash)
      rw [hitems, shownItems_append_slash, hs] at heq
      refine hbefore ?_
      rw [← List.append_cancel_right heq, List.getLast?_concat]
  · refine ⟨shownItems lexicon [] (items s.toList), fun position => ?_, ?_⟩
    · rw [toList_escape_of_not_loneSlash hlone,
        items_eq_iff.mpr (reads_rewritten escapes s.toList), renderItems_escaped, shownItems_blank]
    · rw [shownItems_eq_self_iff hplain]
      exact ⟨fun hshown => ⟨hlone, hshown⟩, fun h => h.shown⟩

/-- **An error always has its line, and when that shows it word for word.** -/
theorem exists_errorLine {console : Console} (hconsole : console.Follows lexicon)
    (hplain : lexicon.HasPlainPictures) (e : String) (he : IsClear e) :
    ∃ line, errorLine console false e = .ok line ∧ IsLine line.toList ∧
      (line = errorText e ↔ IsVerbatimError lexicon e.toList) := by
  obtain ⟨text, htext, hiff⟩ := exists_escaped_items hplain e
  have hword : IsWord "error".toList := isWord_name .error
  have hreads := reads_styled (isStyle_red lexicon) hword (reads_items (escape e).toList)
  obtain ⟨next, hstyled⟩ :=
    renderItems_styled (isStyle_red lexicon) hword 0 [] (items (escape e).toList)
  have hline : renderLine lexicon false (styled "red" "error" ++ " " ++ escape e) =
      .ok (String.ofList ("error".toList ++ ' ' :: text ++ ['\n'])) := by
    rw [renderLine_eq, String.toList_append, items_eq_iff.mpr hreads, hstyled, htext]
    rfl
  have herror : IsClear (styled "red" "error") := (isClear_ofList rfl).styled (isClear_ofList rfl)
  have hclear : IsClear (styled "red" "error" ++ " " ++ escape e) :=
    (herror.append (isClear_ofList rfl)).append he.escape
  refine ⟨_, ?_, isLine_of_renderLine hplain hclear.not_mem hline, ?_⟩
  · unfold errorLine
    rw [hconsole.escape, hconsole.line _ hclear, hline]
    rfl
  · rw [← hiff, ← String.toList_inj, String.toList_ofList]
    simp [errorText]

end Lexicon

theorem isLine_errorText {e : String} (h : '\n' ∉ e.toList) : IsLine (errorText e).toList := by
  refine ⟨"error ".toList ++ e.toList, by simp [errorText], ?_⟩
  simp [h]

end SeamLint.Output
