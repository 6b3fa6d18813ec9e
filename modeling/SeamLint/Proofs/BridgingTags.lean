import SeamLint.Proofs.MarkupText

set_option autoImplicit false

/-! # Tags that bridge a place and a message

The line of a finding holds its place and its message, each escaped for itself. Together they read
as both escaped at once (`reads_escapedBody`), unless something that looks like a tag begins in the
one and ends in the other. Such a bridge was escaped in neither half and is read as a tag
(`IsBridge.reads_escapedBody`): part of the line is lost, or the line cannot be printed at all.
-/

namespace SeamLint.Output

/-! ## Place and message -/

/-- The place and the message of a finding, as they are to be read. -/
def bodyText (place message : List Char) : List Char := place ++ (':' :: ' ' :: message)

/-- The place and the message of a finding, each escaped for itself. -/
def escapedBody (place message : List Char) : List Char :=
  rewritten escapes (items place) ++ (':' :: ' ' :: rewritten escapes (items message))

/-- Something that looks like a tag begins in the place and ends in the message. -/
def Bridges (place message : List Char) : Prop := OpensTag place ∧ ClosesTag message

theorem closesTag_colon {s : List Char} : ClosesTag (':' :: ' ' :: s) ↔ ClosesTag s := by
  rw [closesTag_iff, closesTag_iff, List.dropWhile_cons_of_pos (by decide),
    List.dropWhile_cons_of_pos (by decide)]

theorem apart_of_not_bridges {place message rest : List Char} (h : ¬Bridges place message)
    (hrest : ClosesTag rest ↔ ClosesTag message) : Apart place (':' :: ' ' :: rest) := by
  refine ⟨fun _ => frontTag?_of_plain (by decide) (by decide) _, fun _ c hc => ?_,
    fun hopens hcloses => ?_⟩
  · cases hc
    decide
  · exact h ⟨hopens, hrest.mp (closesTag_colon.mp hcloses)⟩

theorem reads_colon {rest : List Char} {js : List Item} (hrest : Reads rest js) :
    Reads (':' :: ' ' :: rest) (.plain ':' :: .plain ' ' :: js) :=
  .plain (frontTag?_of_plain (by decide) (by decide) _)
    (.plain (frontTag?_of_plain (by decide) (by decide) _) hrest)

/-- **If nothing bridges them, place and message escaped one by one are both escaped together.** -/
theorem reads_escapedBody {place message : List Char} (h : ¬Bridges place message) :
    Reads (escapedBody place message)
      ((items (bodyText place message)).map (Item.withSlashes escapes)) := by
  have hbody : items (bodyText place message) =
      items place ++ (.plain ':' :: .plain ' ' :: items message) :=
    items_eq_iff.mpr (reads_append (reads_items place) (reads_colon (reads_items message))
      (apart_of_not_bridges h Iff.rfl))
  rw [hbody, List.map_append]
  exact reads_rewritten_append (reads_items place) (reads_colon (reads_rewritten escapes message))
    (apart_of_not_bridges h closesTag_rewritten)

/-! ## Bridges -/

/-- A bridge with its parts: what stands before its backslashes, its two halves, and what stands
after it. -/
structure IsBridge (place message : List Char) (slashes : Nat)
    (before left right after : List Char) : Prop where
  place_eq : place = before ++ (List.replicate slashes '\\' ++ '[' :: left)
  message_eq : message = right ++ ']' :: after
  unslashed : before.getLast? ≠ some '\\'
  left_tag : isTagText left = true
  right_inside : ∀ c ∈ right, isInside c = true

theorem exists_split_slashes (s : List Char) :
    ∃ before slashes, s = before ++ List.replicate slashes '\\' ∧ before.getLast? ≠ some '\\' := by
  induction s using List.reverseRecOn with
  | nil => exact ⟨[], 0, rfl, by simp⟩
  | append_singleton s c ih =>
    by_cases hc : c = '\\'
    · obtain ⟨before, slashes, rfl, hbefore⟩ := ih
      refine ⟨before, slashes + 1, ?_, hbefore⟩
      rw [hc, List.append_assoc, List.replicate_succ']
    · refine ⟨s ++ [c], 0, by simp, ?_⟩
      simpa using hc

theorem exists_isBridge {place message : List Char} (h : Bridges place message) :
    ∃ slashes before left right after, IsBridge place message slashes before left right after := by
  obtain ⟨⟨front, c, inside, rfl, hc, hinside⟩, right, after, rfl, hright⟩ := h
  obtain ⟨before, slashes, rfl, hbefore⟩ := exists_split_slashes front
  refine ⟨slashes, before, c :: inside, right, after, ?_, rfl, hbefore, ?_, hright⟩
  · rw [List.append_assoc]
  · simp [isTagText, hc, List.all_eq_true.mpr hinside]

section Bridge

variable {place message before left right after : List Char} {slashes : Nat}
  (h : IsBridge place message slashes before left right after)

include h

/-- Nothing reaches into a bridge, which begins with backslashes or an opening bracket. -/
theorem IsBridge.apart (rest : List Char) :
    Apart before (List.replicate slashes '\\' ++ '[' :: rest) := by
  refine ⟨fun hlast => absurd hlast h.unslashed, fun _ c hc => ?_, fun _ hcloses => ?_⟩
  · have hhead : c = '\\' ∨ c = '[' := by
      cases slashes with
      | zero => exact Or.inr (Option.some.inj hc).symm
      | succ n => exact Or.inl (Option.some.inj hc).symm
    rcases hhead with rfl | rfl
    · rfl
    · rfl
  · rw [closesTag_iff, List.dropWhile_append_of_pos (by simp [isInside])] at hcloses
    simp [isInside] at hcloses

theorem IsBridge.left_inside : ∀ c ∈ left, isInside c = true := by
  have htag := h.left_tag
  cases left with
  | nil => cases htag
  | cons c rest =>
    simp only [isTagText, Bool.and_eq_true, List.all_eq_true] at htag
    refine List.forall_mem_cons.mpr ⟨?_, htag.2⟩
    by_contra hinside
    rcases isInside_eq_false.mp (Bool.not_eq_true _ ▸ hinside) with rfl | rfl
    · exact absurd htag.1 (by decide)
    · exact absurd htag.1 (by decide)

theorem IsBridge.items_place :
    items place = items before ++ (List.replicate slashes '\\' ++ '[' :: left).map .plain := by
  have hunclosed : ']' ∉ List.replicate slashes '\\' ++ '[' :: left := by
    simp only [List.mem_append, List.mem_replicate, List.mem_cons, not_or]
    refine ⟨fun hslash => absurd hslash.2 (by decide), by decide, fun hleft => ?_⟩
    exact absurd (h.left_inside _ hleft) (by decide)
  rw [items_eq_iff, h.place_eq]
  exact reads_append (reads_items before) (reads_of_unclosed hunclosed) (h.apart left)

theorem IsBridge.items_message :
    items message = right.map .plain ++ .plain ']' :: items after := by
  have hopening : '[' ∉ right := fun hmem => absurd (h.right_inside _ hmem) (by decide)
  have hclosing : ']' ∉ right := fun hmem => absurd (h.right_inside _ hmem) (by decide)
  have happart : Apart right (']' :: after) := by
    refine ⟨fun _ => frontTag?_of_plain (by decide) (by decide) _, fun _ c hc => ?_, ?_⟩
    · cases hc
      decide
    · rintro ⟨front, c, inside, rfl, -⟩
      exact absurd (by simp) hopening
  rw [items_eq_iff, h.message_eq]
  exact reads_append (reads_of_unclosed hclosing)
    (.plain (frontTag?_of_plain (by decide) (by decide) _) (reads_items after)) happart

/-- **A bridge is read as a tag**: neither half of it was escaped. -/
theorem IsBridge.reads_escapedBody :
    Reads (escapedBody place message)
      ((items before).map (Item.withSlashes escapes) ++
        .tag slashes (left ++ ':' :: ' ' :: right) ::
          (items after).map (Item.withSlashes escapes)) := by
  have hinside : isTagText (left ++ ':' :: ' ' :: right) = true := by
    have htag := h.left_tag
    cases left with
    | nil => cases htag
    | cons c rest =>
      simp only [isTagText, Bool.and_eq_true, List.cons_append, List.all_append,
        List.all_cons] at htag ⊢
      exact ⟨htag.1, htag.2, rfl, rfl, List.all_eq_true.mpr h.right_inside⟩
  have hplace : rewritten escapes (items place) =
      rewritten escapes (items before) ++ (List.replicate slashes '\\' ++ '[' :: left) := by
    rw [h.items_place, rewritten_append, rewritten_map_plain]
  have hmessage : rewritten escapes (items message) =
      right ++ ']' :: rewritten escapes (items after) := by
    rw [h.items_message, rewritten_append, rewritten_map_plain, rewritten_plain]
  have htag : Reads (List.replicate slashes '\\' ++ bracket (left ++ ':' :: ' ' :: right) ++
      rewritten escapes (items after)) _ :=
    .tag slashes hinside (reads_rewritten escapes after)
  have hchars : escapedBody place message = rewritten escapes (items before) ++
      (List.replicate slashes '\\' ++ bracket (left ++ ':' :: ' ' :: right) ++
        rewritten escapes (items after)) := by
    unfold escapedBody
    rw [hplace, hmessage]
    simp [bracket]
  rw [hchars]
  refine reads_rewritten_append (reads_items before) htag ?_
  have hfront : List.replicate slashes '\\' ++ bracket (left ++ ':' :: ' ' :: right) ++
      rewritten escapes (items after) = List.replicate slashes '\\' ++ '[' ::
        (left ++ ':' :: ' ' :: right ++ ']' :: rewritten escapes (items after)) := by
    simp [bracket]
  rw [hfront]
  exact h.apart _

theorem IsBridge.marks_bodyText :
    marks (bodyText place message) = marks before + slashes + marks left + marks right +
      marks after + 2 := by
  have hcolon : isMark ':' = true := rfl
  have hblank : isMark ' ' = false := rfl
  have hopening : isMark '[' = true := rfl
  have hclosing : isMark ']' = false := rfl
  unfold bodyText
  rw [h.place_eq, h.message_eq]
  simp only [marks_append, marks_slashes, marks_cons, hcolon, hblank, hopening, hclosing, if_true,
    Bool.false_eq_true, if_false]
  omega

/-- A line with a bridge has too few marks: at least the bracket or a backslash is lost. -/
theorem IsBridge.not_rendered {lexicon : Lexicon} (hplain : lexicon.HasPlainPictures)
    (position : Nat) :
    renderItems lexicon [] position [' '] (items (escapedBody place message)) ≠
      .ok (' ' :: bodyText place message) := by
  intro hrendered
  rw [items_eq_iff.mpr h.reads_escapedBody] at hrendered
  have hmarks := marks_le_of_renderItems hplain hrendered
  have hcolon : isMark ':' = true := rfl
  have hblank : isMark ' ' = false := rfl
  simp only [shownMarks, shownMarks_append, shownMarks_escaped (reads_items before),
    shownMarks_escaped (reads_items after),
    marks_cons, marks_nil, marks_append, h.marks_bodyText, Item.shownMarks, hcolon, hblank,
    if_true, Bool.false_eq_true, if_false] at hmarks
  by_cases hodd : slashes % 2 = 1
  · rw [if_pos hodd] at hmarks
    omega
  · rw [if_neg hodd] at hmarks
    omega

end Bridge

section Lexicon

variable {lexicon : Lexicon}

/-- **A finding is printed word for word if and only if nothing bridges its place and its message,
and all of it is shown as it is.** -/
theorem renderItems_body_iff (hplain : lexicon.HasPlainPictures) {place message : List Char}
    (position : Nat) :
    renderItems lexicon [] position [' '] (items (escapedBody place message)) =
        .ok (' ' :: bodyText place message) ↔
      ¬Bridges place message ∧ IsShownAsIs lexicon (bodyText place message) := by
  by_cases hbridge : Bridges place message
  · obtain ⟨slashes, before, left, right, after, hparts⟩ := exists_isBridge hbridge
    exact iff_of_false (hparts.not_rendered hplain position) fun h => h.1 hbridge
  · rw [items_eq_iff.mpr (reads_escapedBody hbridge), renderItems_escaped, Except.ok.injEq,
      shownItems_blank, List.cons.injEq, shownItems_eq_self_iff hplain]
    simp [hbridge]

/-! ## Tags that close nothing -/

/-- Outside of every style a closing tag cannot be applied. -/
theorem applyTag_closing (lexicon : Lexicon) (position : Nat) (inside : List Char) :
    ∃ fault, applyTag lexicon [] position ('/' :: inside) = .error fault := by
  have hname : tagName ('/' :: inside) = '/' :: tagName inside := rfl
  unfold applyTag
  rw [hname]
  cases hstyle : Text.trim (tagName inside) with
  | nil => exact ⟨.nothingOpen position, by simp [hstyle]⟩
  | cons c rest => exact ⟨.unmatched (String.ofList ('/' :: inside)) position, by simp [hstyle]⟩

theorem applyTag_opening (tags : List OpenTag) (position : Nat) {inside : List Char}
    (h : inside.head? ≠ some '/') :
    ∃ opened, applyTag lexicon tags position inside = .ok opened := by
  unfold applyTag
  split
  case h_1 name hname =>
    -- the name of a tag begins as the tag does
    obtain ⟨rest, hrest⟩ : tagName inside <+: inside := List.takeWhile_prefix _
    refine absurd ?_ h
    rw [← hrest, hname]
    rfl
  case h_2 => exact ⟨_, rfl⟩

/-- A bridge that is read as a closing tag. -/
def ClosesNothing (place message : List Char) : Prop :=
  ∃ slashes before left right after, slashes % 2 = 0 ∧
    IsBridge place message slashes before ('/' :: left) right after

theorem ClosesNothing.bridges {place message : List Char} (h : ClosesNothing place message) :
    Bridges place message := by
  obtain ⟨slashes, before, left, right, after, -, hbridge⟩ := h
  refine ⟨?_, right, after, hbridge.message_eq, hbridge.right_inside⟩
  refine ⟨before ++ List.replicate slashes '\\', '/', left, ?_, rfl, ?_⟩
  · rw [hbridge.place_eq, List.append_assoc]
  · exact (List.forall_mem_cons.mp hbridge.left_inside).2

/-- **A finding is printed if and only if no closing tag bridges its place and its message.** -/
theorem exists_rendered_body_iff (lexicon : Lexicon) {place message : List Char} (position : Nat) :
    (∃ text, renderItems lexicon [] position [' '] (items (escapedBody place message)) = .ok text) ↔
      ¬ClosesNothing place message := by
  constructor
  · rintro ⟨text, htext⟩ ⟨slashes, before, left, right, after, heven, hbridge⟩
    rw [items_eq_iff.mpr hbridge.reads_escapedBody] at htext
    obtain ⟨fault, hfault⟩ := not_rendered_of_tag heven
      (fun position => applyTag_closing lexicon position (left ++ ':' :: ' ' :: right))
      (items before) ((items after).map (Item.withSlashes escapes)) position [' ']
    cases hfault.symm.trans htext
  · intro hcloses
    by_cases hbridge : Bridges place message
    · obtain ⟨slashes, before, left, right, after, hparts⟩ := exists_isBridge hbridge
      rw [items_eq_iff.mpr hparts.reads_escapedBody]
      refine rendered_of_tag ?_ _ _ _ _
      by_cases hodd : slashes % 2 = 1
      · exact Or.inl hodd
      · refine Or.inr fun position => applyTag_opening [] position fun hhead => ?_
        have htag := hparts.left_tag
        cases left with
        | nil => cases htag
        | cons c left =>
          obtain rfl : c = '/' := Option.some.inj hhead
          exact hcloses ⟨slashes, before, left, right, after, by omega, hparts⟩
    · rw [items_eq_iff.mpr (reads_escapedBody hbridge), renderItems_escaped]
      exact ⟨_, rfl⟩

end Lexicon

end SeamLint.Output
