import SeamLint.Proofs.MarkupItems

set_option autoImplicit false

/-! # What is printed of a text with markup

A line prints the text of its items (`renderLine_eq`). Items that are escaped are never tags
(`renderItems_escaped`); they are printed as they are if and only if no backslash stands in front of
a bracket and no picture is named in the text between tags (`shownItems_eq_iff`).
-/

namespace SeamLint.Output

open SeamLint.Text

/-! ## Pictures and brackets -/

/-- A character that means something in markup. -/
def isMark (c : Char) : Bool := c == ':' || c == '\\' || c == '['

/-- How many characters of a text mean something in markup. Reading never adds any, and whatever it
changes has fewer of them afterwards, while a picture may be longer than its name. -/
def marks (s : List Char) : Nat := s.countP isMark

@[simp] theorem marks_nil : marks [] = 0 := rfl

@[simp] theorem marks_cons (c : Char) (cs : List Char) :
    marks (c :: cs) = marks cs + if isMark c then 1 else 0 := List.countP_cons

@[simp] theorem marks_append (s t : List Char) : marks (s ++ t) = marks s + marks t :=
  List.countP_append

@[simp] theorem marks_reverse (s : List Char) : marks s.reverse = marks s := List.countP_reverse

@[simp] theorem marks_slashes (n : Nat) : marks (List.replicate n '\\') = n := by
  have hmark : isMark '\\' = true := rfl
  simp [marks, List.countP_replicate, hmark]

@[simp] theorem marks_bracket (inside : List Char) : marks (bracket inside) = marks inside + 1 := by
  have hopening : isMark '[' = true := rfl
  have hclosing : isMark ']' = false := rfl
  simp [bracket, hopening, hclosing]

/-- The pictures of the lexicon hold neither characters that mean something in markup nor line
breaks. -/
def Lexicon.HasPlainPictures (lexicon : Lexicon) : Prop :=
  ∀ name shown, lexicon.picture? name = some shown → ∀ c ∈ shown, isMark c = false ∧ c ≠ '\n'

theorem Lexicon.HasPlainPictures.marks_eq {lexicon : Lexicon} (h : lexicon.HasPlainPictures)
    {name shown : List Char} (hshown : lexicon.picture? name = some shown) : marks shown = 0 := by
  refine List.countP_eq_zero.mpr fun c hc => ?_
  rw [(h name shown hshown c hc).1]
  exact Bool.false_ne_true

theorem marks_openBrackets_le (s : List Char) : marks (openBrackets s) ≤ marks s := by
  fun_induction openBrackets s with
  | case1 => exact Nat.le_refl _
  | case2 c cs h ih =>
    rw [marks_cons]
    exact ih.trans (Nat.le_add_right _ _)
  | case3 c cs h ih =>
    rw [marks_cons, marks_cons]
    exact Nat.add_le_add_right ih _

theorem openBrackets_of_marks {s : List Char} (h : marks (openBrackets s) = marks s) :
    openBrackets s = s := by
  fun_induction openBrackets s with
  | case1 => rfl
  | case2 c cs hslash ih =>
    -- a backslash was dropped
    obtain ⟨rfl, -⟩ : c = '\\' ∧ cs.head? = some '[' := by simpa using hslash
    have hle := marks_openBrackets_le cs
    have hmark : isMark '\\' = true := rfl
    rw [marks_cons, hmark, if_pos rfl] at h
    omega
  | case3 c cs _ ih =>
    rw [marks_cons, marks_cons] at h
    rw [ih (Nat.add_right_cancel h)]

/-- A text keeps all its backslashes if none of them stands in front of a bracket. -/
theorem openBrackets_eq_self_iff {s : List Char} :
    openBrackets s = s ↔ ¬['\\', '['] <:+: s := by
  fun_induction openBrackets s with
  | case1 => simp
  | case2 c cs h ih =>
    obtain ⟨rfl, hhead⟩ : c = '\\' ∧ cs.head? = some '[' := by simpa using h
    -- a backslash is dropped, so the text has fewer marks
    have hfewer : openBrackets cs ≠ '\\' :: cs := fun heq => by
      have hle := marks_openBrackets_le cs
      have hmark : isMark '\\' = true := rfl
      rw [heq, marks_cons, hmark, if_pos rfl] at hle
      omega
    obtain ⟨rest, rfl⟩ := List.head?_eq_some_iff.mp hhead
    refine iff_of_false hfewer (not_not.mpr ?_)
    exact ⟨[], rest, rfl⟩
  | case3 c cs h ih =>
    rw [List.cons.injEq, ih, List.infix_cons_iff, not_or]
    refine ⟨fun hkept => ⟨?_, hkept.2⟩, fun hboth => ⟨rfl, hboth.2⟩⟩
    rintro ⟨rest, hrest⟩
    refine h ?_
    obtain ⟨rfl, htail⟩ := List.cons.inj hrest
    simp [← htail]

/-- The text begins with something between colons that could be a short name. -/
def BeginsName (s : List Char) : Prop :=
  ∃ name rest, s = ':' :: (name ++ ':' :: rest) ∧ ∀ c ∈ name, isNameChar c = true

/-- What a text becomes when its short names are replaced. -/
inductive Replaces (lexicon : Lexicon) : List Char → List Char → Prop
  | nil : Replaces lexicon [] []
  | name {name rest shown : List Char} (hname : ∀ c ∈ name, isNameChar c = true)
      (hrest : Replaces lexicon rest shown) :
      Replaces lexicon (':' :: (name ++ ':' :: rest)) (picture lexicon name ++ shown)
  | plain {c : Char} {cs shown : List Char} (hfront : ¬BeginsName (c :: cs))
      (hrest : Replaces lexicon cs shown) : Replaces lexicon (c :: cs) (c :: shown)

section Lexicon

variable {lexicon : Lexicon}

theorem exists_replaces (lexicon : Lexicon) (s : List Char) :
    ∃ shown, Replaces lexicon s shown := by
  induction hlength : s.length using Nat.strong_induction_on generalizing s with
  | _ n ih =>
    cases s with
    | nil => exact ⟨[], .nil⟩
    | cons c cs =>
      by_cases hfront : BeginsName (c :: cs)
      · obtain ⟨name, rest, heq, hname⟩ := hfront
        have hshorter : rest.length < n := by
          have := congrArg List.length heq
          simp only [List.length_cons, List.length_append] at this hlength
          omega
        obtain ⟨shown, hshown⟩ := ih rest.length hshorter rest rfl
        rw [heq]
        exact ⟨_, .name hname hshown⟩
      · obtain ⟨shown, hshown⟩ := ih cs.length (by simp [← hlength]) cs rfl
        exact ⟨_, .plain hfront hshown⟩

theorem replaceNamesFrom_of_replaces {s shown : List Char} (h : Replaces lexicon s shown)
    {fuel : Nat} (hfuel : s.length ≤ fuel) : replaceNamesFrom lexicon fuel s = shown := by
  induction h generalizing fuel with
  | nil => cases fuel <;> rfl
  | @name name rest shown hname hrest ih =>
    simp only [List.length_cons, List.length_append] at hfuel
    obtain ⟨fuel, rfl⟩ : ∃ n, fuel = n + 1 := ⟨fuel - 1, by omega⟩
    have hcolon : isNameChar ':' = false := by decide
    have hdrop : (name ++ ':' :: rest).dropWhile isNameChar = ':' :: rest := by
      rw [List.dropWhile_append_of_pos hname]
      simp [hcolon]
    have htake : (name ++ ':' :: rest).takeWhile isNameChar = name := by
      rw [List.takeWhile_append_of_pos hname]
      simp [hcolon]
    simp only [replaceNamesFrom, if_true, hdrop, htake]
    rw [ih (by omega)]
  | @plain c cs shown hfront hrest ih =>
    simp only [List.length_cons] at hfuel
    obtain ⟨fuel, rfl⟩ : ∃ n, fuel = n + 1 := ⟨fuel - 1, by omega⟩
    have hcs : replaceNamesFrom lexicon fuel cs = shown := ih (by omega)
    unfold replaceNamesFrom
    split
    case isTrue hc =>
      split
      case h_1 after hdrop =>
        -- then a name would stand at the front
        refine absurd ⟨cs.takeWhile isNameChar, after, ?_, fun x hx => ?_⟩ hfront
        · rw [hc, ← hdrop, List.takeWhile_append_dropWhile]
        · exact List.mem_takeWhile_imp hx
      case h_2 => rw [hcs]
    case isFalse => rw [hcs]

theorem replaceNames_eq_iff {s shown : List Char} :
    replaceNames lexicon s = shown ↔ Replaces lexicon s shown := by
  have hnames : ∀ {t}, Replaces lexicon s t → replaceNames lexicon s = t :=
    fun h => replaceNamesFrom_of_replaces h (Nat.le_refl _)
  constructor
  · rintro rfl
    obtain ⟨shown, hshown⟩ := exists_replaces lexicon s
    exact hnames hshown ▸ hshown
  · exact hnames

section Plain

variable (hplain : lexicon.HasPlainPictures)

include hplain

theorem marks_replaceNames_le (s : List Char) : marks (replaceNames lexicon s) ≤ marks s := by
  obtain ⟨shown, h⟩ := exists_replaces lexicon s
  rw [replaceNames_eq_iff.mpr h]
  induction h with
  | nil => exact Nat.le_refl _
  | @name name rest shown _ _ ih =>
    have hpicture : marks (picture lexicon name) ≤ marks (':' :: name ++ [':']) := by
      unfold picture
      split
      case h_1 found hfound =>
        rw [hplain.marks_eq hfound]
        exact Nat.zero_le _
      case h_2 => exact Nat.le_refl _
    simp only [marks_append, marks_cons, marks_nil, List.cons_append] at hpicture ⊢
    omega
  | plain _ _ ih =>
    rw [marks_cons, marks_cons]
    exact Nat.add_le_add_right ih _

/-- What has as many marks as before was not changed. -/
theorem replaceNames_of_marks {s : List Char} (h : marks (replaceNames lexicon s) = marks s) :
    replaceNames lexicon s = s := by
  obtain ⟨shown, hshown⟩ := exists_replaces lexicon s
  rw [replaceNames_eq_iff.mpr hshown] at h ⊢
  induction hshown with
  | nil => rfl
  | @name name rest shown _ hrest ih =>
    have hle := marks_replaceNames_le hplain rest
    rw [replaceNames_eq_iff.mpr hrest] at hle
    have hcolon : isMark ':' = true := rfl
    unfold picture at h ⊢
    split at h
    case h_1 found hfound =>
      -- the colons are gone
      simp only [marks_append, marks_cons, hplain.marks_eq hfound, hcolon, if_true] at h
      omega
    case h_2 hnone =>
      simp only [marks_append, marks_cons, marks_nil, List.cons_append] at h
      rw [ih (by omega)]
      simp
  | plain _ _ ih =>
    rw [marks_cons, marks_cons] at h
    rw [ih (Nat.add_right_cancel h)]

theorem marks_literal_le (s : List Char) : marks (literal lexicon s) ≤ marks s :=
  (marks_replaceNames_le hplain _).trans (marks_openBrackets_le s)

theorem literal_of_marks {s : List Char} (h : marks (literal lexicon s) = marks s) :
    literal lexicon s = s := by
  have hnames := marks_replaceNames_le hplain (openBrackets s)
  have hbrackets := marks_openBrackets_le s
  unfold literal at h ⊢
  have hopen : openBrackets s = s := openBrackets_of_marks (by omega)
  rw [hopen] at h ⊢
  exact replaceNames_of_marks hplain h

end Plain

theorem replaceNames_of_no_colon {s : List Char} (h : ':' ∉ s) : replaceNames lexicon s = s := by
  obtain ⟨shown, hshown⟩ := exists_replaces lexicon s
  rw [replaceNames_eq_iff.mpr hshown]
  induction hshown with
  | nil => rfl
  | name _ _ _ => exact absurd List.mem_cons_self h
  | plain _ _ ih => rw [ih (List.not_mem_of_not_mem_cons h)]

/-- The first name between colons is replaced if it is the name of a picture. -/
theorem replaceNames_picture {front name rest shown : List Char} (hfront : ':' ∉ front)
    (hname : ∀ c ∈ name, isNameChar c = true) (hpicture : lexicon.picture? name = some shown) :
    replaceNames lexicon (front ++ ':' :: (name ++ ':' :: rest)) =
      front ++ (shown ++ replaceNames lexicon rest) := by
  rw [replaceNames_eq_iff]
  induction front with
  | nil =>
    have hreplaced : Replaces lexicon (':' :: (name ++ ':' :: rest))
        (picture lexicon name ++ replaceNames lexicon rest) :=
      .name hname (replaceNames_eq_iff.mp rfl)
    unfold picture at hreplaced
    rwa [hpicture] at hreplaced
  | cons c front ih =>
    rw [List.mem_cons, not_or] at hfront
    refine .plain ?_ (ih hfront.2)
    rintro ⟨name, after, heq, -⟩
    exact hfront.1 (List.cons.inj heq).1.symm

/-- A piece of text is printed as it is if no backslash in it stands in front of a bracket and
nothing in it is the short name of a picture. -/
def IsPlainPiece (lexicon : Lexicon) (s : List Char) : Prop :=
  ¬['\\', '['] <:+: s ∧ replaceNames lexicon s = s

theorem literal_of_isPlainPiece {s : List Char} (h : IsPlainPiece lexicon s) :
    literal lexicon s = s := by
  unfold literal
  rw [openBrackets_eq_self_iff.mpr h.1, h.2]

theorem literal_eq_self_iff (hplain : lexicon.HasPlainPictures) {s : List Char} :
    literal lexicon s = s ↔ IsPlainPiece lexicon s := by
  refine ⟨fun h => ?_, literal_of_isPlainPiece⟩
  unfold literal at h
  have hopen : openBrackets s = s := by
    refine openBrackets_of_marks (Nat.le_antisymm (marks_openBrackets_le s) ?_)
    have hle := marks_replaceNames_le hplain (openBrackets s)
    rwa [h] at hle
  rw [hopen] at h
  exact ⟨openBrackets_eq_self_iff.mp hopen, h⟩

/-! ## What is printed -/

/-- What is printed of items, with the tags that are open around them, the position in the markup,
and the characters in front of them, the last one first. -/
def renderItems (lexicon : Lexicon) (tags : List OpenTag) (position : Nat) (before : List Char) :
    List Item → Except MarkupFault (List Char)
  | [] => .ok (literal lexicon before.reverse)
  | .plain c :: rest => renderItems lexicon tags (position + 1) (c :: before) rest
  | .tag slashes inside :: rest =>
      let next := position + slashes + inside.length + 2
      let front := literal lexicon before.reverse ++ List.replicate (slashes / 2) '\\'
      if slashes % 2 = 1 then
        (renderItems lexicon tags next [] rest).map (front ++ literal lexicon (bracket inside) ++ ·)
      else do
        let tags ← applyTag lexicon tags (position + slashes) inside
        (renderItems lexicon tags next [] rest).map (front ++ ·)

/-- The text of segments, whatever their tags. -/
def textOf (segments : List Segment) : List Char := segments.flatMap Segment.text

theorem literal_replicate_slash (n : Nat) :
    literal lexicon (List.replicate n '\\') = List.replicate n '\\' := by
  refine literal_of_isPlainPiece ⟨fun hpair => ?_, ?_⟩
  · have hmem : '[' ∈ List.replicate n '\\' := hpair.subset (by simp)
    exact absurd (List.eq_of_mem_replicate hmem) (by decide)
  · unfold replaceNames
    have hfuel : ∀ fuel, replaceNamesFrom lexicon fuel (List.replicate n '\\') =
        List.replicate n '\\' := by
      intro fuel
      induction n generalizing fuel with
      | zero => cases fuel <;> rfl
      | succ n ih =>
        cases fuel with
        | zero => rfl
        | succ fuel => simp [List.replicate_succ, replaceNamesFrom, ih]
    exact hfuel _

theorem map_textOf_segments_text (tags : List OpenTag) (s : List Char) (ps : List Piece) :
    (segments lexicon tags (.text s :: ps)).map textOf =
      ((segments lexicon tags ps).map textOf).map (literal lexicon s ++ ·) := by
  rw [segments]
  cases segments lexicon tags ps with
  | error fault => rfl
  | ok segs => rfl

theorem map_textOf_segments_textPiece (tags : List OpenTag) (s : List Char) (ps : List Piece) :
    (segments lexicon tags (textPiece s ++ ps)).map textOf =
      ((segments lexicon tags ps).map textOf).map (literal lexicon s ++ ·) := by
  cases s with
  | nil =>
    show (segments lexicon tags ps).map textOf = _
    cases segments lexicon tags ps with
    | error fault => rfl
    | ok segs => rfl
  | cons c cs => exact map_textOf_segments_text tags (c :: cs) ps

/-- The pieces of items print what the items do. -/
theorem map_textOf_segments (tags : List OpenTag) (position : Nat) (before : List Char)
    (is : List Item) :
    (segments lexicon tags (piecesFrom position before is)).map textOf =
      renderItems lexicon tags position before is := by
  induction is generalizing tags position before with
  | nil =>
    unfold piecesFrom
    rw [← List.append_nil (textPiece _), map_textOf_segments_textPiece]
    show Except.ok _ = Except.ok _
    simp [textOf]
  | cons i rest ih =>
    cases i with
    | plain c => exact ih tags (position + 1) (c :: before)
    | tag slashes inside =>
      unfold piecesFrom tagPieces renderItems
      rw [List.append_assoc, List.append_assoc, map_textOf_segments_textPiece,
        map_textOf_segments_textPiece, literal_replicate_slash]
      by_cases hodd : slashes % 2 = 1
      · rw [if_pos hodd, if_pos hodd, List.singleton_append, map_textOf_segments_text, ih]
        cases renderItems lexicon tags (position + slashes + inside.length + 2) [] rest with
        | error fault => rfl
        | ok text =>
          show Except.ok _ = Except.ok _
          simp
      · rw [if_neg hodd, if_neg hodd, List.singleton_append, segments]
        cases applyTag lexicon tags (position + slashes) inside with
        | error fault => rfl
        | ok opened =>
          show ((Except.map textOf (segments lexicon opened _)).map _).map _ = Except.map _ _
          rw [ih]
          cases renderItems lexicon opened (position + slashes + inside.length + 2) [] rest with
          | error fault => rfl
          | ok text =>
            show Except.ok _ = Except.ok _
            simp

theorem toList_join_nil (parts : List String) :
    (join "" parts).toList = parts.flatMap String.toList := by
  unfold join
  rw [String.toList_ofList, List.flatMap_def]
  induction parts with
  | nil => rfl
  | cons part rest ih =>
    cases rest with
    | nil => simp
    | cons next rest => simpa [List.intercalate] using ih

/-- **A line without colours shows the text of its items.** -/
theorem renderLine_eq (s : String) :
    renderLine lexicon false s =
      (renderItems lexicon [] 0 [] (items s.toList)).map fun text =>
        String.ofList (text ++ ['\n']) := by
  rw [← map_textOf_segments]
  unfold renderLine render
  cases segments lexicon [] (piecesFrom 0 [] (items s.toList)) with
  | error fault => rfl
  | ok segs =>
    show Except.ok (join "" (segs.map (Segment.shown false)) ++ "\n") =
      Except.ok (String.ofList (textOf segs ++ ['\n']))
    have hshown : ∀ segment ∈ segs, (segment.shown false).toList = segment.text := by
      intro segment _
      simp [Segment.shown]
    congr 1
    apply String.toList_injective
    rw [String.toList_append, toList_join_nil, String.toList_ofList, textOf, List.flatMap_map,
      List.flatMap_congr hshown]
    exact String.toList_ofList.symm

theorem renderItems_plain (tags : List OpenTag) (position : Nat) (before s : List Char)
    (js : List Item) :
    renderItems lexicon tags position before (s.map .plain ++ js) =
      renderItems lexicon tags (position + s.length) (s.reverse ++ before) js := by
  induction s generalizing position before with
  | nil => rfl
  | cons c cs ih =>
    rw [List.map_cons, List.cons_append, renderItems, ih]
    simp [Nat.add_comm, Nat.add_left_comm]

/-! ## What is printed of escaped items -/

/-- Items cut at everything that looks like a tag: the characters between, the backslashes of a tag
and its bracket; `before` holds the characters in front of the items, the last one first. -/
def runsFrom (before : List Char) : List Item → List (List Char)
  | [] => [before.reverse]
  | .plain c :: rest => runsFrom (c :: before) rest
  | .tag slashes inside :: rest =>
      before.reverse :: List.replicate slashes '\\' :: bracket inside :: runsFrom [] rest

/-- What is printed of items that are taken literally. -/
def shownItems (lexicon : Lexicon) (before : List Char) (is : List Item) : List Char :=
  (runsFrom before is).flatMap (literal lexicon)

theorem flatten_runsFrom (before : List Char) (is : List Item) :
    (runsFrom before is).flatten = before.reverse ++ is.flatMap Item.source := by
  induction is generalizing before with
  | nil => simp [runsFrom]
  | cons i rest ih =>
    cases i with
    | plain c => simp [runsFrom, ih, Item.source]
    | tag slashes inside => simp [runsFrom, ih, Item.source]

/-- **Escaped items are never tags.** -/
theorem renderItems_escaped (tags : List OpenTag) (position : Nat) (before : List Char)
    (is : List Item) :
    renderItems lexicon tags position before (is.map (Item.withSlashes escapes)) =
      .ok (shownItems lexicon before is) := by
  induction is generalizing position before with
  | nil => simp [renderItems, shownItems, runsFrom]
  | cons i rest ih =>
    cases i with
    | plain c => exact ih (position + 1) (c :: before)
    | tag slashes inside =>
      have hodd : escapes slashes % 2 = 1 := by unfold escapes; omega
      have hhalf : escapes slashes / 2 = slashes := by unfold escapes; omega
      simp only [List.map_cons, Item.withSlashes, renderItems, hodd, hhalf, if_true, ih]
      show Except.ok _ = Except.ok _
      simp [shownItems, runsFrom, literal_replicate_slash]

theorem marks_flatMap_literal_le (hplain : lexicon.HasPlainPictures) (runs : List (List Char)) :
    marks (runs.flatMap (literal lexicon)) ≤ marks runs.flatten := by
  induction runs with
  | nil => exact Nat.le_refl _
  | cons run rest ih =>
    rw [List.flatMap_cons, List.flatten_cons, marks_append, marks_append]
    exact Nat.add_le_add (marks_literal_le hplain run) ih

theorem flatMap_literal_eq_flatten_iff (hplain : lexicon.HasPlainPictures)
    {runs : List (List Char)} :
    runs.flatMap (literal lexicon) = runs.flatten ↔ ∀ run ∈ runs, IsPlainPiece lexicon run := by
  induction runs with
  | nil => simp
  | cons run rest ih =>
    rw [List.forall_mem_cons, ← ih, ← literal_eq_self_iff hplain, List.flatMap_cons,
      List.flatten_cons]
    constructor
    · intro h
      -- nothing gets more marks, so the run must keep its own
      have hmarks := congrArg marks h
      rw [marks_append, marks_append] at hmarks
      have hrun := marks_literal_le hplain run
      have hrest := marks_flatMap_literal_le hplain rest
      have hkept := literal_of_marks hplain (s := run) (by omega)
      rw [hkept] at h
      exact ⟨hkept, List.append_cancel_left h⟩
    · rintro ⟨hrun, hrest⟩
      rw [hrun, hrest]

/-- **Escaped items are printed as they are if and only if every run is.** -/
theorem shownItems_eq_iff (hplain : lexicon.HasPlainPictures) {before : List Char}
    {is : List Item} :
    shownItems lexicon before is = before.reverse ++ is.flatMap Item.source ↔
      ∀ run ∈ runsFrom before is, IsPlainPiece lexicon run := by
  rw [← flatten_runsFrom]
  exact flatMap_literal_eq_flatten_iff hplain

theorem runsFrom_plain (before s : List Char) (is : List Item) :
    runsFrom before (s.map .plain ++ is) = runsFrom (s.reverse ++ before) is := by
  induction s generalizing before with
  | nil => rfl
  | cons c cs ih => simp [runsFrom, ih]

/-- The first run holds the characters in front of the items. -/
theorem exists_run_mem_runsFrom (before : List Char) (is : List Item) :
    ∃ rest, before.reverse ++ rest ∈ runsFrom before is := by
  induction is generalizing before with
  | nil => exact ⟨[], by simp [runsFrom]⟩
  | cons i is ih =>
    cases i with
    | plain c =>
      obtain ⟨rest, hrest⟩ := ih (c :: before)
      exact ⟨c :: rest, by simpa [runsFrom] using hrest⟩
    | tag slashes inside => exact ⟨[], by simp [runsFrom]⟩

/-- Every run of the text between tags is printed as it is. -/
def IsShownAsIs (lexicon : Lexicon) (s : List Char) : Prop :=
  ∀ run ∈ runsFrom [] (items s), IsPlainPiece lexicon run

instance (lexicon : Lexicon) (s : List Char) : Decidable (IsShownAsIs lexicon s) :=
  inferInstanceAs (Decidable (∀ run ∈ runsFrom [] (items s), ¬_ ∧ _))

theorem shownItems_eq_self_iff (hplain : lexicon.HasPlainPictures) {s : List Char} :
    shownItems lexicon [] (items s) = s ↔ IsShownAsIs lexicon s := by
  have hiff : shownItems lexicon [] (items s) = [].reverse ++ (items s).flatMap Item.source ↔
      IsShownAsIs lexicon s := shownItems_eq_iff hplain
  rwa [flatMap_source_of_reads (reads_items s)] at hiff

/-- A text is not shown as it is if the first name between colons in it is that of a picture, and no
tag can begin before it. -/
theorem not_isShownAsIs_of_picture (hplain : lexicon.HasPlainPictures)
    {front name rest shown : List Char} (hclear : ∀ c ∈ front ++ ':' :: name, c ≠ '\\' ∧ c ≠ '[')
    (hfront : ':' ∉ front) (hname : ∀ c ∈ name, isNameChar c = true)
    (hpicture : lexicon.picture? name = some shown) :
    ¬IsShownAsIs lexicon (front ++ ':' :: (name ++ ':' :: rest)) := by
  intro hshown
  have hsplit : front ++ ':' :: (name ++ ':' :: rest) = (front ++ ':' :: name) ++ ':' :: rest := by
    simp
  have hitems : items (front ++ ':' :: (name ++ ':' :: rest)) =
      (front ++ ':' :: name).map .plain ++ .plain ':' :: items rest := by
    rw [items_eq_iff, hsplit]
    exact reads_plain_append hclear
      (.plain (frontTag?_of_plain (by decide) (by decide) rest) (reads_items rest))
  unfold IsShownAsIs at hshown
  rw [hitems, runsFrom_plain] at hshown
  obtain ⟨after, hafter⟩ := exists_run_mem_runsFrom (':' :: ((front ++ ':' :: name).reverse ++ []))
    (items rest)
  -- the first run has the name in it and loses its colons
  have hrun : (':' :: ((front ++ ':' :: name).reverse ++ [])).reverse ++ after =
      front ++ ':' :: (name ++ ':' :: after) := by simp
  rw [hrun] at hafter
  have hkept := congrArg marks (hshown _ hafter).2
  rw [replaceNames_picture hfront hname hpicture] at hkept
  have hfewer := marks_replaceNames_le hplain after
  have hcolon : isMark ':' = true := rfl
  simp only [marks_append, marks_cons, hplain.marks_eq hpicture, hcolon, if_true] at hkept
  omega

/-! ## Characters at the ends -/

theorem literal_cons_space (s : List Char) :
    literal lexicon (' ' :: s) = ' ' :: literal lexicon s := by
  unfold literal
  have hopen : openBrackets (' ' :: s) = ' ' :: openBrackets s := by simp [openBrackets]
  rw [hopen]
  simp [replaceNames, replaceNamesFrom]

theorem shownItems_space (before : List Char) (is : List Item) :
    shownItems lexicon (before ++ [' ']) is = ' ' :: shownItems lexicon before is := by
  induction is generalizing before with
  | nil => simp [shownItems, runsFrom, literal_cons_space]
  | cons i rest ih =>
    cases i with
    | plain c => exact ih (c :: before)
    | tag slashes inside => simp [shownItems, runsFrom, literal_cons_space]

theorem shownItems_blank (is : List Item) :
    shownItems lexicon [' '] is = ' ' :: shownItems lexicon [] is :=
  shownItems_space [] is

theorem openBrackets_append_slash (s : List Char) :
    openBrackets (s ++ ['\\']) = openBrackets s ++ ['\\'] := by
  induction s with
  | nil => rfl
  | cons c cs ih =>
    have hhead : (cs ++ ['\\']).head? = some '[' ↔ cs.head? = some '[' := by
      cases cs with
      | nil => simp
      | cons x xs => simp
    rw [List.cons_append, openBrackets, openBrackets, ih]
    simp only [hhead]
    split
    · rfl
    · rfl

theorem replaceNames_append_slash (s : List Char) :
    replaceNames lexicon (s ++ ['\\']) = replaceNames lexicon s ++ ['\\'] := by
  have hslash : ∀ rest, ¬BeginsName ('\\' :: rest) := by
    rintro rest ⟨name, after, heq, -⟩
    exact absurd (List.cons.inj heq).1 (by decide)
  obtain ⟨shown, h⟩ := exists_replaces lexicon s
  rw [replaceNames_eq_iff, replaceNames_eq_iff.mpr h]
  induction h with
  | nil => exact .plain (hslash []) .nil
  | @name name rest shown hname _ ih =>
    rw [List.cons_append, List.append_assoc, List.cons_append, List.append_assoc]
    exact .name hname ih
  | @plain c cs shown hfront _ ih =>
    refine .plain ?_ ih
    rintro ⟨name, rest, heq, hname⟩
    have heq : (c :: cs) ++ ['\\'] = (':' :: name) ++ ':' :: rest := heq
    -- the backslash ends what follows the name, so the name was there without it
    cases rest using List.reverseRecOn with
    | nil =>
      have hlast := (List.append_inj' heq rfl).2
      exact absurd (List.cons.inj hlast).1 (by decide)
    | append_singleton rest x =>
      have hsplit : (':' :: name) ++ ':' :: (rest ++ [x]) =
          (':' :: (name ++ ':' :: rest)) ++ [x] := by simp
      rw [hsplit] at heq
      exact hfront ⟨name, rest, (List.append_inj' heq rfl).1, hname⟩

theorem shownItems_append_slash (before : List Char) (is : List Item) :
    shownItems lexicon before (is ++ [.plain '\\']) = shownItems lexicon before is ++ ['\\'] := by
  induction is generalizing before with
  | nil =>
    simp [shownItems, runsFrom, literal, openBrackets_append_slash, replaceNames_append_slash]
  | cons i rest ih =>
    cases i with
    | plain c => exact ih (c :: before)
    | tag slashes inside =>
      have hrest := ih []
      unfold shownItems at hrest ⊢
      simp [runsFrom, hrest]

/-! ## Tags among escaped items -/

/-- A tag that cannot be applied keeps everything from being printed. -/
theorem not_rendered_of_tag {tags : List OpenTag} {inside : List Char} {slashes : Nat}
    (heven : slashes % 2 = 0)
    (hfault : ∀ position, ∃ fault, applyTag lexicon tags position inside = .error fault)
    (is js : List Item) (position : Nat) (before : List Char) :
    ∃ fault, renderItems lexicon tags position before
      (is.map (Item.withSlashes escapes) ++ .tag slashes inside :: js) = .error fault := by
  induction is generalizing position before with
  | nil =>
    obtain ⟨fault, hfault⟩ := hfault (position + slashes)
    refine ⟨fault, ?_⟩
    have heven : ¬slashes % 2 = 1 := by omega
    simp only [List.map_nil, List.nil_append, renderItems, if_neg heven, hfault]
    rfl
  | cons i rest ih =>
    cases i with
    | plain c => exact ih (position + 1) (c :: before)
    | tag k other =>
      obtain ⟨fault, hrest⟩ := ih (position + escapes k + other.length + 2) []
      refine ⟨fault, ?_⟩
      have hodd : escapes k % 2 = 1 := by unfold escapes; omega
      simp only [List.map_cons, List.cons_append, Item.withSlashes, renderItems, if_pos hodd, hrest]
      rfl

/-- A tag that can be applied, or is escaped itself, lets escaped items be printed. -/
theorem rendered_of_tag {tags : List OpenTag} {inside : List Char} {slashes : Nat}
    (h : slashes % 2 = 1 ∨ ∀ position, ∃ opened, applyTag lexicon tags position inside = .ok opened)
    (is js : List Item) (position : Nat) (before : List Char) :
    ∃ text, renderItems lexicon tags position before
      (is.map (Item.withSlashes escapes) ++
        .tag slashes inside :: js.map (Item.withSlashes escapes)) = .ok text := by
  induction is generalizing position before with
  | nil =>
    by_cases hodd : slashes % 2 = 1
    · simp only [List.map_nil, List.nil_append, renderItems, if_pos hodd, renderItems_escaped]
      exact ⟨_, rfl⟩
    · obtain ⟨opened, hopened⟩ := h.resolve_left hodd (position + slashes)
      simp only [List.map_nil, List.nil_append, renderItems, if_neg hodd, hopened]
      show ∃ text, Except.map _ (renderItems lexicon opened _ _ _) = .ok text
      rw [renderItems_escaped]
      exact ⟨_, rfl⟩
  | cons i rest ih =>
    cases i with
    | plain c => exact ih (position + 1) (c :: before)
    | tag k other =>
      obtain ⟨text, hrest⟩ := ih (position + escapes k + other.length + 2) []
      have hodd : escapes k % 2 = 1 := by unfold escapes; omega
      simp only [List.map_cons, List.cons_append, Item.withSlashes, renderItems, if_pos hodd, hrest]
      exact ⟨_, rfl⟩

/-- How many marks of an item are printed at most. -/
def Item.shownMarks : Item → Nat
  | .plain c => marks [c]
  | .tag slashes inside => slashes / 2 + if slashes % 2 = 1 then marks inside + 1 else 0

/-- How many marks of a list of items are printed at most. -/
def shownMarks : List Item → Nat
  | [] => 0
  | i :: rest => i.shownMarks + shownMarks rest

theorem shownMarks_append (is js : List Item) :
    shownMarks (is ++ js) = shownMarks is + shownMarks js := by
  induction is with
  | nil => exact (Nat.zero_add _).symm
  | cons i is ih => simp only [List.cons_append, shownMarks, ih, Nat.add_assoc]

theorem map_eq_ok {ε α β : Type} {f : α → β} {x : Except ε α} {b : β} (h : x.map f = .ok b) :
    ∃ a, x = .ok a ∧ f a = b := by
  cases x with
  | error fault => cases h
  | ok a => exact ⟨a, rfl, Except.ok.inj h⟩

theorem marks_le_of_renderItems (hplain : lexicon.HasPlainPictures) {tags : List OpenTag}
    {position : Nat} {before text : List Char} {is : List Item}
    (h : renderItems lexicon tags position before is = .ok text) :
    marks text ≤ marks before + shownMarks is := by
  have hbefore := marks_literal_le hplain before.reverse
  rw [marks_reverse] at hbefore
  induction is generalizing tags position before text with
  | nil =>
    cases h
    exact hbefore
  | cons i rest ih =>
    rw [shownMarks]
    cases i with
    | plain c =>
      have hcons := marks_literal_le hplain (c :: before).reverse
      rw [marks_reverse] at hcons
      have hrest := ih h hcons
      simp only [marks_cons, marks_nil, Item.shownMarks] at hrest ⊢
      omega
    | tag slashes inside =>
      have hnothing := marks_literal_le hplain ([] : List Char).reverse
      unfold renderItems at h
      by_cases hodd : slashes % 2 = 1
      · rw [if_pos hodd] at h
        obtain ⟨after, hafter, rfl⟩ := map_eq_ok h
        have hrest := ih hafter hnothing
        have hbracket := marks_literal_le hplain (bracket inside)
        simp only [marks_append, marks_slashes, marks_bracket, marks_nil, Item.shownMarks,
          if_pos hodd] at hrest hbracket ⊢
        omega
      · rw [if_neg hodd] at h
        cases htag : applyTag lexicon tags (position + slashes) inside with
        | error fault =>
          rw [htag] at h
          cases h
        | ok opened =>
          rw [htag] at h
          obtain ⟨after, hafter, rfl⟩ := map_eq_ok h
          have hrest := ih hafter hnothing
          simp only [marks_append, marks_slashes, marks_nil, Item.shownMarks,
            if_neg hodd] at hrest ⊢
          omega

/-- An escaped item shows as many marks as it is written with. -/
theorem shownMarks_escaped {s : List Char} {is : List Item} (h : Reads s is) :
    shownMarks (is.map (Item.withSlashes escapes)) = marks s := by
  induction h with
  | nil => rfl
  | @tag slashes inside rest is _ _ ih =>
    have hodd : escapes slashes % 2 = 1 := by unfold escapes; omega
    have hhalf : escapes slashes / 2 = slashes := by unfold escapes; omega
    rw [List.map_cons, shownMarks, ih]
    simp only [Item.withSlashes, Item.shownMarks, if_pos hodd, hhalf, marks_append, marks_slashes,
      marks_bracket]
  | plain _ _ ih =>
    rw [List.map_cons, shownMarks, ih]
    simp only [Item.withSlashes, Item.shownMarks, marks_cons, marks_nil]
    omega

/-! ## Which characters are printed -/

section Characters

variable {P : Char → Prop}
  (hpictures : ∀ name shown, lexicon.picture? name = some shown → ∀ c ∈ shown, P c)

include hpictures

theorem forall_mem_replaceNames {s : List Char} (h : ∀ c ∈ s, P c) :
    ∀ c ∈ replaceNames lexicon s, P c := by
  obtain ⟨shown, hshown⟩ := exists_replaces lexicon s
  rw [replaceNames_eq_iff.mpr hshown]
  induction hshown with
  | nil => exact h
  | @name name rest shown _ _ ih =>
    simp only [List.forall_mem_cons, List.forall_mem_append] at h
    obtain ⟨hcolon, hname, -, hrest⟩ := h
    rw [List.forall_mem_append]
    refine ⟨?_, ih hrest⟩
    unfold picture
    split
    case h_1 found hfound => exact hpictures name found hfound
    case h_2 =>
      simp only [List.forall_mem_append, List.forall_mem_cons]
      exact ⟨⟨hcolon, hname⟩, hcolon, List.forall_mem_nil _⟩
  | plain _ _ ih =>
    rw [List.forall_mem_cons] at h ⊢
    exact ⟨h.1, ih h.2⟩

theorem forall_mem_literal {s : List Char} (h : ∀ c ∈ s, P c) : ∀ c ∈ literal lexicon s, P c := by
  refine forall_mem_replaceNames hpictures ?_
  fun_induction openBrackets s with
  | case1 => exact h
  | case2 c cs _ ih => exact ih (List.forall_mem_cons.mp h).2
  | case3 c cs _ ih =>
    rw [List.forall_mem_cons] at h ⊢
    exact ⟨h.1, ih h.2⟩

/-- Only what is written is printed, and pictures. -/
theorem forall_mem_of_renderItems {tags : List OpenTag} {position : Nat} {before text : List Char}
    {is : List Item} (hbefore : ∀ c ∈ before, P c) (his : ∀ i ∈ is, ∀ c ∈ i.source, P c)
    (h : renderItems lexicon tags position before is = .ok text) : ∀ c ∈ text, P c := by
  have hopened : ∀ c ∈ literal lexicon before.reverse, P c :=
    forall_mem_literal hpictures fun c hc => hbefore c (List.mem_reverse.mp hc)
  induction is generalizing tags position before text with
  | nil =>
    cases h
    exact hopened
  | cons i rest ih =>
    rw [List.forall_mem_cons] at his
    cases i with
    | plain c =>
      have hcons : ∀ x ∈ c :: before, P x :=
        List.forall_mem_cons.mpr ⟨his.1 c (List.mem_singleton.mpr rfl), hbefore⟩
      refine ih hcons his.2 h (forall_mem_literal hpictures fun x hx => hcons x ?_)
      exact List.mem_reverse.mp hx
    | tag slashes inside =>
      have hbracket : ∀ c ∈ bracket inside, P c :=
        fun c hc => his.1 c (List.mem_append_right _ hc)
      have hslashes : ∀ c ∈ List.replicate (slashes / 2) '\\', P c := by
        intro c hc
        rw [List.mem_replicate] at hc
        refine his.1 c (List.mem_append_left _ (List.mem_replicate.mpr ⟨?_, hc.2⟩))
        rintro rfl
        exact hc.1 rfl
      have hrest : ∀ {tags position after},
          renderItems lexicon tags position [] rest = .ok after → ∀ c ∈ after, P c :=
        fun hafter => ih (List.forall_mem_nil _) his.2 hafter
          (forall_mem_literal hpictures (List.forall_mem_nil _))
      unfold renderItems at h
      split at h
      case isTrue =>
        obtain ⟨after, hafter, rfl⟩ := map_eq_ok h
        simp only [List.forall_mem_append]
        exact ⟨⟨⟨hopened, hslashes⟩, forall_mem_literal hpictures hbracket⟩, hrest hafter⟩
      case isFalse =>
        cases htag : applyTag lexicon tags (position + slashes) inside with
        | error fault =>
          rw [htag] at h
          cases h
        | ok opened =>
          rw [htag] at h
          obtain ⟨after, hafter, rfl⟩ := map_eq_ok h
          simp only [List.forall_mem_append]
          exact ⟨⟨hopened, hslashes⟩, hrest hafter⟩

end Characters

end Lexicon

end SeamLint.Output
