import Mathlib.Data.List.Infix
import Mathlib.Data.List.Induction
import Mathlib.Data.List.TakeWhile
import SeamLint.Output.Markup

set_option autoImplicit false

/-! # The items of a text with markup

`Reads` says which items a text consists of, and `items` finds them (`items_eq_iff`). A text that
stands in front of another keeps its items, unless something that looks like a tag begins in the one
and ends in the other (`Apart`).
-/

namespace SeamLint.Output

/-! ## Tags -/

/-- The text can stand between the brackets of a tag. -/
def isTagText : List Char → Bool
  | [] => false
  | c :: rest => isTagStart c && rest.all isInside

/-- The tag at the front of a text, after any backslashes, and what follows it. -/
def frontTag? (s : List Char) : Option (List Char × List Char) :=
  splitTag? (s.dropWhile (· == '\\'))

theorem isInside_eq_false {c : Char} : isInside c = false ↔ c = '[' ∨ c = ']' := by
  simp only [isInside, Bool.and_eq_false_iff, bne_eq_false_iff_eq]

theorem splitTag?_eq_some {s inside after : List Char} :
    splitTag? s = some (inside, after) ↔ isTagText inside = true ∧ s = bracket inside ++ after := by
  constructor
  · intro h
    unfold splitTag? at h
    split at h
    case h_1 c rest =>
      split at h
      case isTrue hstart =>
        split at h
        case h_1 after' hdrop =>
          cases h
          have hall : (rest.takeWhile isInside).all isInside = true := List.all_takeWhile
          refine ⟨by simp [isTagText, hstart, hall], ?_⟩
          have hrest := List.takeWhile_append_dropWhile (p := isInside) (l := rest)
          rw [hdrop] at hrest
          simp [bracket, hrest]
        case h_2 => cases h
      case isFalse => cases h
    case h_2 => cases h
  · rintro ⟨htag, rfl⟩
    cases inside with
    | nil => cases htag
    | cons c rest =>
      simp only [isTagText, Bool.and_eq_true] at htag
      have hclosing : isInside ']' = false := by decide
      have hall : ∀ x ∈ rest, isInside x = true := List.all_eq_true.mp htag.2
      have hdrop : (rest ++ ']' :: after).dropWhile isInside = ']' :: after := by
        rw [List.dropWhile_append_of_pos hall]
        simp [hclosing]
      have htake : (rest ++ ']' :: after).takeWhile isInside = rest := by
        rw [List.takeWhile_append_of_pos hall]
        simp [hclosing]
      simp [bracket, splitTag?, htag.1, hdrop, htake]

theorem splitTag?_cons_of_ne {c : Char} (h : c ≠ '[') (cs : List Char) :
    splitTag? (c :: cs) = none := by
  unfold splitTag?
  split
  case h_1 c' rest heq => exact absurd (List.cons.inj heq).1 h
  case h_2 => rfl

theorem frontTag?_cons_slash (cs : List Char) : frontTag? ('\\' :: cs) = frontTag? cs := by
  simp [frontTag?]

theorem frontTag?_cons_of_ne {c : Char} (h : c ≠ '\\') (cs : List Char) :
    frontTag? (c :: cs) = splitTag? (c :: cs) := by
  simp [frontTag?, h]

theorem frontTag?_tag (slashes : Nat) {inside : List Char} (h : isTagText inside = true)
    (rest : List Char) :
    frontTag? (List.replicate slashes '\\' ++ bracket inside ++ rest) = some (inside, rest) := by
  induction slashes with
  | zero =>
    rw [List.replicate_zero, List.nil_append]
    unfold bracket
    rw [List.cons_append, List.cons_append, frontTag?_cons_of_ne (by decide)]
    exact splitTag?_eq_some.mpr ⟨h, rfl⟩
  | succ slashes ih =>
    rw [List.replicate_succ, List.cons_append, List.cons_append, frontTag?_cons_slash]
    exact ih

/-! ## The items of a text -/

/-- The items that a text consists of. -/
inductive Reads : List Char → List Item → Prop
  | nil : Reads [] []
  | tag (slashes : Nat) {inside rest : List Char} {is : List Item}
      (htag : isTagText inside = true) (hrest : Reads rest is) :
      Reads (List.replicate slashes '\\' ++ bracket inside ++ rest) (.tag slashes inside :: is)
  | plain {c : Char} {cs : List Char} {is : List Item} (hfront : frontTag? (c :: cs) = none)
      (hrest : Reads cs is) : Reads (c :: cs) (.plain c :: is)

theorem exists_reads (s : List Char) : ∃ is, Reads s is := by
  induction hlength : s.length using Nat.strong_induction_on generalizing s with
  | _ n ih =>
    cases s with
    | nil => exact ⟨[], .nil⟩
    | cons c cs =>
      cases hfront : frontTag? (c :: cs) with
      | none =>
        obtain ⟨is, his⟩ := ih cs.length (by simp [← hlength]) cs rfl
        exact ⟨_, .plain hfront his⟩
      | some found =>
        obtain ⟨inside, after⟩ := found
        obtain ⟨htag, hdrop⟩ := splitTag?_eq_some.mp hfront
        -- the backslashes in front are those that were dropped
        have hslashes : (c :: cs).takeWhile (· == '\\') =
            List.replicate ((c :: cs).takeWhile (· == '\\')).length '\\' := by
          refine List.eq_replicate_iff.mpr ⟨rfl, fun x hx => ?_⟩
          exact beq_iff_eq.mp (List.mem_takeWhile_imp (p := (· == '\\')) hx)
        have hsplit : c :: cs = List.replicate ((c :: cs).takeWhile (· == '\\')).length '\\' ++
            bracket inside ++ after := by
          rw [List.append_assoc, ← hdrop, ← hslashes]
          exact List.takeWhile_append_dropWhile.symm
        have hshorter : after.length < n := by
          have := congrArg List.length hsplit
          simp only [List.length_append, bracket, List.length_cons] at this hlength
          omega
        obtain ⟨is, his⟩ := ih after.length hshorter after rfl
        rw [hsplit]
        exact ⟨_, .tag _ htag his⟩

theorem itemsFrom_of_reads {s : List Char} {is : List Item} (h : Reads s is) {fuel : Nat}
    (hfuel : s.length ≤ fuel) : itemsFrom fuel s = is := by
  induction h generalizing fuel with
  | nil => cases fuel <;> rfl
  | @tag slashes inside rest is htag hrest ih =>
    have hfront := frontTag?_tag slashes htag rest
    have htake : (List.replicate slashes '\\' ++ bracket inside ++ rest).takeWhile (· == '\\') =
        List.replicate slashes '\\' := by
      rw [List.append_assoc, List.takeWhile_append_of_pos (by simp)]
      simp [bracket]
    cases hs : List.replicate slashes '\\' ++ bracket inside ++ rest with
    | nil => simp [bracket] at hs
    | cons c cs =>
      have hlength := congrArg List.length hs
      simp only [List.length_append, bracket, List.length_cons, List.length_replicate] at hlength
      simp only [List.length_append, bracket, List.length_cons, List.length_replicate] at hfuel
      obtain ⟨fuel, rfl⟩ : ∃ n, fuel = n + 1 := ⟨fuel - 1, by omega⟩
      rw [hs] at hfront htake
      unfold frontTag? at hfront
      simp only [itemsFrom, hfront, htake, List.length_replicate, List.cons.injEq, true_and]
      exact ih (by omega)
  | @plain c cs is hfront hrest ih =>
    obtain ⟨fuel, rfl⟩ : ∃ n, fuel = n + 1 := ⟨fuel - 1, by simp at hfuel; omega⟩
    unfold frontTag? at hfront
    simp only [itemsFrom, hfront, List.cons.injEq, true_and]
    exact ih (by simp at hfuel; omega)

/-- **Every text consists of items in one way, and that is the one that is found.** -/
theorem items_eq_iff {s : List Char} {is : List Item} : items s = is ↔ Reads s is := by
  have hitems : ∀ {js}, Reads s js → items s = js := fun h => itemsFrom_of_reads h (Nat.le_refl _)
  constructor
  · rintro rfl
    obtain ⟨is, his⟩ := exists_reads s
    exact hitems his ▸ his
  · exact hitems

theorem reads_items (s : List Char) : Reads s (items s) := items_eq_iff.mp rfl

theorem flatMap_source_of_reads {s : List Char} {is : List Item} (h : Reads s is) :
    is.flatMap Item.source = s := by
  induction h with
  | nil => rfl
  | tag slashes htag hrest ih => simp [Item.source, ih]
  | plain hfront hrest ih => simp [Item.source, ih]

/-! ## Texts in front of texts -/

/-- The text ends inside of what could become a tag. -/
def OpensTag (s : List Char) : Prop :=
  ∃ before c inside, s = before ++ '[' :: c :: inside ∧ isTagStart c = true ∧
    ∀ x ∈ inside, isInside x = true

/-- The first bracket of the text is a closing one. -/
def ClosesTag (s : List Char) : Prop :=
  ∃ inside after, s = inside ++ ']' :: after ∧ ∀ x ∈ inside, isInside x = true

/-- Nothing that looks like a tag begins in the first text, with its backslashes, and ends in the
second one. -/
structure Apart (s rest : List Char) : Prop where
  slash : s.getLast? = some '\\' → frontTag? rest = none
  bracket : s.getLast? = some '[' → ∀ c ∈ rest.head?, isTagStart c = false
  tag : OpensTag s → ¬ClosesTag rest

theorem Apart.of_cons {c : Char} {cs rest : List Char} (h : Apart (c :: cs) rest) :
    Apart cs rest := by
  have hlast : ∀ x, cs.getLast? = some x → (c :: cs).getLast? = some x := by
    intro x hx
    rw [List.getLast?_cons, hx]
    rfl
  refine ⟨fun hx => h.slash (hlast _ hx), fun hx => h.bracket (hlast _ hx), ?_⟩
  rintro ⟨before, c', inside, rfl, hinside⟩
  exact h.tag ⟨c :: before, c', inside, rfl, hinside⟩

theorem Apart.of_append {s t rest : List Char} (h : Apart (s ++ t) rest) : Apart t rest := by
  induction s with
  | nil => exact h
  | cons c s ih => exact ih h.of_cons

theorem closesTag_iff {s : List Char} :
    ClosesTag s ↔ (s.dropWhile isInside).head? = some ']' := by
  constructor
  · rintro ⟨inside, after, rfl, hinside⟩
    rw [List.dropWhile_append_of_pos hinside]
    simp [isInside]
  · intro h
    cases hdrop : s.dropWhile isInside with
    | nil => simp [hdrop] at h
    | cons x after =>
      rw [hdrop] at h
      cases h
      refine ⟨s.takeWhile isInside, after, ?_, fun x hx => List.mem_takeWhile_imp hx⟩
      rw [← hdrop]
      exact List.takeWhile_append_dropWhile.symm

/-- An item with another number of backslashes. -/
def Item.withSlashes (g : Nat → Nat) : Item → Item
  | .plain c => .plain c
  | .tag slashes inside => .tag (g slashes) inside

/-- Items as they are written with other numbers of backslashes. -/
def rewritten (g : Nat → Nat) (is : List Item) : List Char :=
  (is.map (Item.withSlashes g)).flatMap Item.source

section Rewritten

variable {g : Nat → Nat} {s rest : List Char} {is : List Item}

theorem rewritten_plain (c : Char) (is : List Item) :
    rewritten g (.plain c :: is) = c :: rewritten g is := rfl

theorem rewritten_tag (slashes : Nat) (inside : List Char) (is : List Item) :
    rewritten g (.tag slashes inside :: is) =
      List.replicate (g slashes) '\\' ++ bracket inside ++ rewritten g is := by
  simp [rewritten, Item.withSlashes, Item.source]

/-- Backslashes are no brackets, so the first bracket stays the first. -/
theorem head?_dropWhile_rewritten (h : Reads s is) :
    ((rewritten g is ++ rest).dropWhile isInside).head? =
      ((s ++ rest).dropWhile isInside).head? := by
  have hslash : isInside '\\' = true := by decide
  have hopening : isInside '[' = false := by decide
  have hbracket : ∀ (slashes : Nat) (inside after : List Char),
      ((List.replicate slashes '\\' ++ bracket inside ++ after).dropWhile isInside).head? =
        some '[' := by
    intro slashes inside after
    rw [List.append_assoc, List.dropWhile_append_of_pos (by simp [hslash])]
    simp [bracket, hopening]
  induction h with
  | nil => rfl
  | tag slashes htag hrest ih =>
    rw [rewritten_tag, List.append_assoc _ _ rest, List.append_assoc _ _ rest, hbracket, hbracket]
  | @plain c cs is hfront hrest ih =>
    rw [rewritten_plain, List.cons_append, List.cons_append]
    by_cases hc : isInside c = true
    · rw [List.dropWhile_cons_of_pos hc, List.dropWhile_cons_of_pos hc, ih]
    · rw [List.dropWhile_cons_of_neg hc, List.dropWhile_cons_of_neg hc]
      rfl

/-- A bracket that begins no tag begins none with other backslashes after it either. -/
theorem splitTag?_bracket_rewritten {cs : List Char} (hcs : Reads cs is)
    (hfront : splitTag? ('[' :: cs) = none) (happart : Apart ('[' :: cs) rest) :
    splitTag? ('[' :: (rewritten g is ++ rest)) = none := by
  by_contra hsome
  obtain ⟨⟨inside, after⟩, hsplit⟩ := Option.ne_none_iff_exists'.mp hsome
  obtain ⟨htag, heq⟩ := splitTag?_eq_some.mp hsplit
  obtain ⟨c, inside, rfl⟩ : ∃ c v, inside = c :: v := by
    cases inside with
    | nil => cases htag
    | cons c v => exact ⟨c, v, rfl⟩
  simp only [isTagText, Bool.and_eq_true] at htag
  have heq : rewritten g is ++ rest = c :: (inside ++ ']' :: after) := by
    simpa [bracket] using heq
  -- what begins the inside of the tag is in the text itself, so the tag began there
  cases hcs with
  | nil =>
    have hhead : rest.head? = some c := by
      rw [show rest = c :: (inside ++ ']' :: after) from heq]
      rfl
    have hstart := happart.bracket rfl c hhead
    rw [htag.1] at hstart
    cases hstart
  | tag slashes _ _ =>
    rw [rewritten_tag] at heq
    have hhead : c = '\\' ∨ c = '[' := by
      cases hslashes : g slashes with
      | zero =>
        rw [hslashes] at heq
        exact Or.inr (List.cons.inj heq).1.symm
      | succ n =>
        rw [hslashes] at heq
        exact Or.inl (List.cons.inj heq).1.symm
    rcases hhead with rfl | rfl
    · exact absurd htag.1 (by decide)
    · exact absurd htag.1 (by decide)
  | @plain c₂ cs₂ is₂ _ hcs₂ =>
    rw [rewritten_plain, List.cons_append] at heq
    obtain ⟨rfl, htail⟩ := List.cons.inj heq
    have hclosing : ((cs₂ ++ rest).dropWhile isInside).head? = some ']' := by
      rw [← head?_dropWhile_rewritten (g := g) hcs₂, htail]
      exact closesTag_iff.mp ⟨inside, after, rfl, List.all_eq_true.mp htag.2⟩
    by_cases hall : ∀ x ∈ cs₂, isInside x = true
    · -- the tag would be closed by what follows the text
      refine happart.tag ⟨[], c₂, cs₂, rfl, htag.1, hall⟩ (closesTag_iff.mpr ?_)
      rwa [List.dropWhile_append_of_pos hall] at hclosing
    · -- the tag would be closed in the text
      have hne : cs₂.dropWhile isInside ≠ [] :=
        fun hnil => hall (List.dropWhile_eq_nil_iff.mp hnil)
      rw [List.dropWhile_append, if_neg (by simpa using hne),
        List.head?_append_of_ne_nil _ hne] at hclosing
      obtain ⟨v, after, rfl, hv⟩ := closesTag_iff.mpr hclosing
      have hfound : splitTag? ('[' :: c₂ :: (v ++ ']' :: after)) = some (c₂ :: v, after) := by
        refine splitTag?_eq_some.mpr ⟨?_, by simp [bracket]⟩
        simp [isTagText, htag.1, List.all_eq_true.mpr hv]
      rw [hfound] at hfront
      cases hfront

/-- A text without a tag at its front has none there with other backslashes either. -/
theorem frontTag?_rewritten (h : Reads s is) (hfront : frontTag? s = none) (happart : Apart s rest)
    (hempty : s = [] → frontTag? rest = none) : frontTag? (rewritten g is ++ rest) = none := by
  induction h with
  | nil => exact hempty rfl
  | tag slashes htag hrest ih =>
    rw [frontTag?_tag slashes htag] at hfront
    cases hfront
  | @plain c cs is _ hcs ih =>
    rw [rewritten_plain, List.cons_append]
    by_cases hslash : c = '\\'
    · -- backslashes are passed over
      subst hslash
      rw [frontTag?_cons_slash] at hfront ⊢
      refine ih hfront happart.of_cons fun hnil => happart.slash ?_
      rw [hnil]
      rfl
    · rw [frontTag?_cons_of_ne hslash] at hfront ⊢
      by_cases hbracket : c = '['
      · subst hbracket
        exact splitTag?_bracket_rewritten hcs hfront happart
      · exact splitTag?_cons_of_ne hbracket _

/-- **Texts that are apart keep their items**, also with other numbers of backslashes in the
first. -/
theorem reads_rewritten_append (h : Reads s is) {js : List Item} (hrest : Reads rest js)
    (happart : Apart s rest) :
    Reads (rewritten g is ++ rest) (is.map (Item.withSlashes g) ++ js) := by
  induction h with
  | nil => exact hrest
  | @tag slashes inside after is htag _ ih =>
    rw [rewritten_tag, List.append_assoc]
    exact .tag _ htag (ih happart.of_append)
  | @plain c cs is hfront hcs ih =>
    rw [rewritten_plain]
    refine .plain ?_ (ih happart.of_cons)
    exact frontTag?_rewritten (.plain hfront hcs) hfront happart nofun

end Rewritten

theorem map_withSlashes_id (is : List Item) : is.map (Item.withSlashes id) = is := by
  refine List.map_id'' (fun i => ?_) is
  cases i <;> rfl

theorem rewritten_id {s : List Char} {is : List Item} (h : Reads s is) : rewritten id is = s := by
  unfold rewritten
  rw [map_withSlashes_id]
  exact flatMap_source_of_reads h

theorem reads_append {s rest : List Char} {is js : List Item} (h : Reads s is)
    (hrest : Reads rest js) (happart : Apart s rest) : Reads (s ++ rest) (is ++ js) := by
  have hreads := reads_rewritten_append (g := id) h hrest happart
  rwa [rewritten_id h, map_withSlashes_id] at hreads

theorem frontTag?_of_plain {c : Char} (hslash : c ≠ '\\') (hbracket : c ≠ '[') (cs : List Char) :
    frontTag? (c :: cs) = none := by
  rw [frontTag?_cons_of_ne hslash, splitTag?_cons_of_ne hbracket]

/-- Characters that are neither backslashes nor opening brackets are items of their own. -/
theorem reads_plain_append {s rest : List Char} {js : List Item}
    (h : ∀ c ∈ s, c ≠ '\\' ∧ c ≠ '[') (hrest : Reads rest js) :
    Reads (s ++ rest) (s.map .plain ++ js) := by
  induction s with
  | nil => exact hrest
  | cons c cs ih =>
    rw [List.forall_mem_cons] at h
    exact .plain (frontTag?_of_plain h.1.1 h.1.2 _) (ih h.2)

theorem reads_bracket_append {inside rest : List Char} {js : List Item}
    (h : isTagText inside = true) (hrest : Reads rest js) :
    Reads (bracket inside ++ rest) (.tag 0 inside :: js) :=
  .tag 0 h hrest

theorem rewritten_append (g : Nat → Nat) (is js : List Item) :
    rewritten g (is ++ js) = rewritten g is ++ rewritten g js := by
  simp [rewritten]

theorem rewritten_map_plain (g : Nat → Nat) (s : List Char) : rewritten g (s.map .plain) = s := by
  induction s with
  | nil => rfl
  | cons c cs ih => rw [List.map_cons, rewritten_plain, ih]

theorem apart_nil (s : List Char) : Apart s [] := by
  refine ⟨fun _ => rfl, fun _ c hc => ?_, fun _ hcloses => ?_⟩
  · cases hc
  · cases closesTag_iff.mp hcloses

theorem reads_rewritten (g : Nat → Nat) (s : List Char) :
    Reads (rewritten g (items s)) ((items s).map (Item.withSlashes g)) := by
  have hreads := reads_rewritten_append (g := g) (reads_items s) .nil (apart_nil s)
  rwa [List.append_nil, List.append_nil] at hreads

theorem closesTag_rewritten {g : Nat → Nat} {s : List Char} :
    ClosesTag (rewritten g (items s)) ↔ ClosesTag s := by
  have hhead : ((rewritten g (items s) ++ []).dropWhile isInside).head? =
      ((s ++ []).dropWhile isInside).head? := head?_dropWhile_rewritten (reads_items s)
  rw [List.append_nil, List.append_nil] at hhead
  rw [closesTag_iff, closesTag_iff, hhead]

/-- Without a closing bracket there is no tag. -/
theorem reads_of_unclosed {s : List Char} (h : ']' ∉ s) : Reads s (s.map .plain) := by
  induction s with
  | nil => exact .nil
  | cons c cs ih =>
    refine .plain ?_ (ih (List.not_mem_of_not_mem_cons h))
    by_contra hsome
    obtain ⟨⟨inside, after⟩, hsplit⟩ := Option.ne_none_iff_exists'.mp hsome
    obtain ⟨-, hdrop⟩ := splitTag?_eq_some.mp hsplit
    have hmem : ']' ∈ (c :: cs).dropWhile (· == '\\') := by
      rw [hdrop]
      simp [bracket]
    exact h ((List.dropWhile_suffix _).subset hmem)

/-! ## Escaping -/

/-- The number of backslashes in front of a tag that is to be taken literally. -/
def escapes (slashes : Nat) : Nat := 2 * slashes + 1

theorem flatMap_escaped (is : List Item) : is.flatMap Item.escaped = rewritten escapes is := by
  unfold rewritten
  rw [List.flatMap_map]
  congr 1
  funext i
  cases i <;> rfl

/-- The text ends in a backslash that has none before it. -/
def EndsInLoneSlash (s : List Char) : Prop :=
  ∃ before, s = before ++ ['\\'] ∧ before.getLast? ≠ some '\\'

theorem guardEnd_of_loneSlash {s : List Char} (h : EndsInLoneSlash s) :
    guardEnd s = s ++ ['\\'] := by
  obtain ⟨before, rfl, hlast⟩ := h
  unfold guardEnd
  rw [List.reverse_append, List.reverse_singleton, List.singleton_append]
  rw [List.getLast?_eq_head?_reverse] at hlast
  cases hrev : before.reverse with
  | nil => rfl
  | cons c cs =>
    have hne : c ≠ '\\' := fun hc => hlast (by rw [hrev, hc]; rfl)
    simp [hne]

theorem guardEnd_of_not_loneSlash {s : List Char} (h : ¬EndsInLoneSlash s) : guardEnd s = s := by
  unfold guardEnd
  split
  case h_1 hrev =>
    refine absurd ⟨[], ?_, by simp⟩ h
    simpa using congrArg List.reverse hrev
  case h_2 c cs hrev =>
    split
    case isTrue => rfl
    case isFalse hc =>
      refine absurd ⟨(c :: cs).reverse, ?_, ?_⟩ h
      · simpa using congrArg List.reverse hrev
      · simpa using hc
  case h_3 => rfl

/-- Escaping keeps the last character. -/
theorem getLast?_rewritten {g : Nat → Nat} {s : List Char} {is : List Item} (h : Reads s is) :
    (rewritten g is).getLast? = s.getLast? := by
  rw [← rewritten_id h]
  induction is using List.reverseRecOn with
  | nil => rfl
  | append_singleton is i _ =>
    simp only [rewritten, List.map_append, List.flatMap_append]
    cases i with
    | plain c => simp [Item.withSlashes, Item.source]
    | tag slashes inside =>
      have hlast : (bracket inside).getLast? = some ']' := List.getLast?_concat
      simp [Item.withSlashes, Item.source, hlast]

theorem apart_slash {s : List Char} : Apart s ['\\'] := by
  refine ⟨fun _ => rfl, fun _ c hc => ?_, fun _ hcloses => ?_⟩
  · cases hc
    decide
  · exact absurd (closesTag_iff.mp hcloses) (by decide)

theorem reads_slash : Reads ['\\'] [.plain '\\'] := .plain rfl .nil

theorem endsInLoneSlash_rewritten {g : Nat → Nat} {s : List Char} {is : List Item}
    (h : Reads s is) : EndsInLoneSlash (rewritten g is) ↔ EndsInLoneSlash s := by
  -- a last backslash is an item of its own, and the character before it stays
  have hend : ∀ before, s = before ++ ['\\'] →
      rewritten g is = rewritten g (items before) ++ ['\\'] := by
    rintro before rfl
    have hreads := reads_append (reads_items before) reads_slash apart_slash
    rw [← items_eq_iff.mpr h, items_eq_iff.mpr hreads]
    simp [rewritten, Item.withSlashes, Item.source]
  constructor
  · rintro ⟨before, heq, hlast⟩
    have hslash : s.getLast? = some '\\' := by
      rw [← getLast?_rewritten (g := g) h, heq, List.getLast?_concat]
    obtain ⟨front, rfl⟩ := List.getLast?_eq_some_iff.mp hslash
    refine ⟨front, rfl, ?_⟩
    rw [hend front rfl] at heq
    rwa [← getLast?_rewritten (g := g) (reads_items front), List.append_cancel_right heq]
  · rintro ⟨before, heq, hlast⟩
    refine ⟨_, hend before heq, ?_⟩
    rwa [getLast?_rewritten (reads_items before)]

theorem toList_escape (s : String) :
    (escape s).toList = guardEnd (rewritten escapes (items s.toList)) := by
  unfold escape
  rw [String.toList_ofList, flatMap_escaped]

theorem toList_escape_of_not_loneSlash {s : String} (h : ¬EndsInLoneSlash s.toList) :
    (escape s).toList = rewritten escapes (items s.toList) := by
  rw [toList_escape, guardEnd_of_not_loneSlash]
  rwa [endsInLoneSlash_rewritten (reads_items s.toList)]

theorem toList_escape_of_loneSlash {s : String} (h : EndsInLoneSlash s.toList) :
    (escape s).toList = rewritten escapes (items s.toList) ++ ['\\'] := by
  rw [toList_escape, guardEnd_of_loneSlash]
  rwa [endsInLoneSlash_rewritten (reads_items s.toList)]

theorem mem_rewritten {g : Nat → Nat} {is : List Item} {c : Char} (hc : c ∈ rewritten g is) :
    c = '\\' ∨ c ∈ is.flatMap Item.source := by
  unfold rewritten at hc
  rw [List.flatMap_map, List.mem_flatMap] at hc
  obtain ⟨i, hi, hc⟩ := hc
  cases i with
  | plain x => exact Or.inr (List.mem_flatMap.mpr ⟨_, hi, hc⟩)
  | tag slashes inside =>
    rcases List.mem_append.mp hc with hslash | hbracket
    · exact Or.inl (List.eq_of_mem_replicate hslash)
    · exact Or.inr (List.mem_flatMap.mpr ⟨_, hi, List.mem_append_right _ hbracket⟩)

/-- Escaping only adds backslashes. -/
theorem mem_escape {s : String} {c : Char} (hc : c ∈ (escape s).toList) :
    c = '\\' ∨ c ∈ s.toList := by
  have hrewritten : c ∈ rewritten escapes (items s.toList) → c = '\\' ∨ c ∈ s.toList := by
    intro hmem
    have hsource := mem_rewritten hmem
    rwa [flatMap_source_of_reads (reads_items s.toList)] at hsource
  by_cases hlone : EndsInLoneSlash s.toList
  · rw [toList_escape_of_loneSlash hlone, List.mem_append] at hc
    rcases hc with hmem | hslash
    · exact hrewritten hmem
    · exact Or.inl (List.mem_singleton.mp hslash)
  · rw [toList_escape_of_not_loneSlash hlone] at hc
    exact hrewritten hc

end SeamLint.Output
