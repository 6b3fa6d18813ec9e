import SeamLint.Json.Token
import SeamLint.Json.Writer
import SeamLint.Proofs.DecimalText
import SeamLint.Proofs.IntegerText

set_option autoImplicit false

/-! # Texts and numbers as they are written and read

A text is written with escapes, one or two for every character that is not plain ASCII, and is read
back character by character (`readText_written`). An integer is written as its decimal digits and is
read back from them, if what follows cannot continue a number (`readScalar?_int`).
-/

namespace SeamLint.Json

open SeamLint.Data SeamLint.Text SeamLint.Number

/-! ## Units -/

theorem hexValue?_digitChar {d : Nat} (h : d < 16) : hexValue? d.digitChar = some d := by
  have hall : ∀ d < 16, hexValue? d.digitChar = some d := by decide
  exact hall d h

theorem toDigits_sixteen {n : Nat} (h : 16 ≤ n) :
    Nat.toDigits 16 n = Nat.toDigits 16 (n / 16) ++ [(n % 16).digitChar] :=
  Nat.toDigits_of_base_le (by decide) h

/-- A unit has four digits. -/
theorem zeroPad_unit {u : Nat} (h : u < 0x10000) :
    zeroPad 4 (Nat.toDigits 16 u) =
      [(u / 4096).digitChar, (u / 256 % 16).digitChar, (u / 16 % 16).digitChar,
        (u % 16).digitChar] := by
  unfold zeroPad
  by_cases h₁ : u < 16
  · have hdigits : u / 4096 = 0 ∧ u / 256 % 16 = 0 ∧ u / 16 % 16 = 0 ∧ u % 16 = u := by omega
    rw [Nat.toDigits_of_lt_base h₁, hdigits.1, hdigits.2.1, hdigits.2.2.1, hdigits.2.2.2]
    rfl
  · rw [toDigits_sixteen (by omega)]
    by_cases h₂ : u / 16 < 16
    · have hdigits : u / 4096 = 0 ∧ u / 256 % 16 = 0 ∧ u / 16 % 16 = u / 16 := by omega
      rw [Nat.toDigits_of_lt_base h₂, hdigits.1, hdigits.2.1, hdigits.2.2]
      rfl
    · rw [toDigits_sixteen (by omega)]
      by_cases h₃ : u / 16 / 16 < 16
      · have hdigits : u / 4096 = 0 ∧ u / 256 % 16 = u / 16 / 16 := by omega
        rw [Nat.toDigits_of_lt_base h₃, hdigits.1, hdigits.2]
        rfl
      · have hdigits : u / 4096 = u / 16 / 16 / 16 ∧ u / 256 % 16 = u / 16 / 16 % 16 := by omega
        rw [toDigits_sixteen (by omega), Nat.toDigits_of_lt_base (by omega), hdigits.1, hdigits.2]
        rfl

/-- The four digits of a unit escape are read as the unit. -/
theorem readText_unit {u : Nat} (h : u < 0x10000) (start mark offset : Nat) (high : Option Nat)
    (read rest : List Char) :
    readText start (.unit mark 4 0 high) offset read (zeroPad 4 (Nat.toDigits 16 u) ++ rest) =
      readText start (finishUnit mark u high read).1 (offset + 4) (finishUnit mark u high read).2
        rest := by
  have hvalue :
      16 * (16 * (16 * (16 * 0 + u / 4096) + u / 256 % 16) + u / 16 % 16) + u % 16 = u := by
    omega
  rw [zeroPad_unit h]
  simp only [List.cons_append, List.nil_append, readText,
    hexValue?_digitChar (show u / 4096 < 16 by omega),
    hexValue?_digitChar (show u / 256 % 16 < 16 by omega),
    hexValue?_digitChar (show u / 16 % 16 < 16 by omega),
    hexValue?_digitChar (show u % 16 < 16 by omega), hvalue]
  rfl

/-! ## Texts -/

/-- The reader of a text stands between characters, and no half pair waits for its partner. -/
def TextState.IsBetween : TextState → Prop
  | .plain => True
  | .afterUnit _ high => high = none
  | _ => False

theorem readText_backslash {state : TextState} (h : state.IsBetween) (start offset : Nat)
    (read cs : List Char) :
    readText start state offset read ('\\' :: cs) =
      readText start (.escape offset none) (offset + 1) read cs := by
  cases state with
  | plain => rfl
  | afterUnit mark high =>
    cases h
    rfl
  | escape mark high => cases h
  | unit mark missing value high => cases h

/-- A unit escape that is no half of a pair is read as its character. -/
theorem readText_unitEscape {state : TextState} (hstate : state.IsBetween) {u : Nat}
    (hu : u < 0x10000) (hhigh : isHighSurrogate u = false) (hlow : isLowSurrogate u = false)
    (start offset : Nat) (read rest : List Char) :
    ∃ mark, readText start state offset read (unitEscape u ++ rest) =
      readText start (.afterUnit mark none) (offset + 6) (Char.ofNat u :: read) rest := by
  have hfinish : ∀ mark,
      finishUnit mark u none read = (.afterUnit mark none, Char.ofNat u :: read) := by
    intro mark
    simp [finishUnit, unitChar, hhigh, hlow]
  refine ⟨offset + 1, ?_⟩
  calc readText start state offset read (unitEscape u ++ rest)
      = readText start (.escape offset none) (offset + 1) read
          ('u' :: (zeroPad 4 (Nat.toDigits 16 u) ++ rest)) := readText_backslash hstate _ _ _ _
    _ = readText start (.unit (offset + 1) 4 0 none) (offset + 1 + 1) read
          (zeroPad 4 (Nat.toDigits 16 u) ++ rest) := rfl
    _ = readText start (.afterUnit (offset + 1) none) (offset + 6) (Char.ofNat u :: read) rest := by
        rw [readText_unit hu, hfinish]

/-- Two unit escapes that are a pair are read as the character of the pair. -/
theorem readText_pairEscape {state : TextState} (hstate : state.IsBetween) {high low : Nat}
    (hhigh : isHighSurrogate high = true) (hlow : isLowSurrogate low = true) (start offset : Nat)
    (read rest : List Char) :
    ∃ mark, readText start state offset read (unitEscape high ++ unitEscape low ++ rest) =
      readText start (.afterUnit mark none) (offset + 12) (pairChar high low :: read) rest := by
  have hbounds : high < 0x10000 ∧ low < 0x10000 := by
    simp only [isHighSurrogate, isLowSurrogate, Bool.and_eq_true, decide_eq_true_eq] at hhigh hlow
    omega
  have hfirst : ∀ mark, finishUnit mark high none read = (.afterUnit mark (some high), read) := by
    intro mark
    simp [finishUnit, hhigh]
  have hsecond : ∀ mark, finishUnit mark low (some high) read =
      (.afterUnit mark none, pairChar high low :: read) := by
    intro mark
    simp [finishUnit, hlow]
  refine ⟨offset + 6 + 1, ?_⟩
  calc readText start state offset read (unitEscape high ++ unitEscape low ++ rest)
      = readText start state offset read (unitEscape high ++ (unitEscape low ++ rest)) := by
        rw [List.append_assoc]
    _ = readText start (.escape offset none) (offset + 1) read
          ('u' :: (zeroPad 4 (Nat.toDigits 16 high) ++ (unitEscape low ++ rest))) :=
        readText_backslash hstate _ _ _ _
    _ = readText start (.unit (offset + 1) 4 0 none) (offset + 1 + 1) read
          (zeroPad 4 (Nat.toDigits 16 high) ++ (unitEscape low ++ rest)) := rfl
    _ = readText start (.afterUnit (offset + 1) (some high)) (offset + 6) read
          (unitEscape low ++ rest) := by rw [readText_unit hbounds.1, hfirst]
    _ = readText start (.unit (offset + 6 + 1) 4 0 (some high)) (offset + 6 + 1 + 1) read
          (zeroPad 4 (Nat.toDigits 16 low) ++ rest) := rfl
    _ = readText start (.afterUnit (offset + 6 + 1) none) (offset + 12)
          (pairChar high low :: read) rest := by rw [readText_unit hbounds.2, hsecond]

/-- No character is half a pair. -/
theorem not_surrogate (c : Char) :
    isHighSurrogate c.toNat = false ∧ isLowSurrogate c.toNat = false := by
  have hvalid : c.toNat < 0xd800 ∨ 0xdfff < c.toNat ∧ c.toNat < 0x110000 := c.valid
  constructor
  · simp only [isHighSurrogate, Bool.and_eq_false_iff, decide_eq_false_iff_not]
    omega
  · simp only [isLowSurrogate, Bool.and_eq_false_iff, decide_eq_false_iff_not]
    omega

/-- The pair that a character beyond sixteen bits is written as. -/
theorem pair_of_large {c : Char} (h : 0x10000 ≤ c.toNat) :
    isHighSurrogate (0xd800 + (c.toNat - 0x10000) / 0x400) = true ∧
      isLowSurrogate (0xdc00 + (c.toNat - 0x10000) % 0x400) = true ∧
      pairChar (0xd800 + (c.toNat - 0x10000) / 0x400) (0xdc00 + (c.toNat - 0x10000) % 0x400) =
        c := by
  have hvalid : c.toNat < 0xd800 ∨ 0xdfff < c.toNat ∧ c.toNat < 0x110000 := c.valid
  refine ⟨?_, ?_, ?_⟩
  · simp only [isHighSurrogate, Bool.and_eq_true, decide_eq_true_eq]
    omega
  · simp only [isLowSurrogate, Bool.and_eq_true, decide_eq_true_eq]
    omega
  · have hvalue : 0x10000 + (0xd800 + (c.toNat - 0x10000) / 0x400 - 0xd800) * 0x400 +
        (0xdc00 + (c.toNat - 0x10000) % 0x400 - 0xdc00) = c.toNat := by omega
    unfold pairChar
    rw [hvalue, Char.ofNat_toNat]

/-- A backslash and a letter are read as the character that they stand for. -/
theorem readText_escaped {state : TextState} (hstate : state.IsBetween) {letter c : Char}
    (hletter : letter ≠ 'u') (hescaped : escaped? letter = some c) (start offset : Nat)
    (read rest : List Char) :
    readText start state offset read ('\\' :: letter :: rest) =
      readText start .plain (offset + 2) (c :: read) rest := by
  rw [readText_backslash hstate]
  simp only [readText, beq_iff_eq, if_neg hletter, hescaped, flushHigh]

/-- A plain character is read as it is. -/
theorem readText_plain {state : TextState} (hstate : state.IsBetween) {c : Char}
    (hquote : c ≠ '\x22') (hslash : c ≠ '\\') (hcontrol : 0x20 ≤ c.toNat) (start offset : Nat)
    (read rest : List Char) :
    readText start state offset read (c :: rest) =
      readText start .plain (offset + 1) (c :: read) rest := by
  have hplain : ¬c.toNat < 0x20 := by omega
  cases state with
  | plain => simp only [readText, beq_iff_eq, if_neg hquote, if_neg hslash, if_neg hplain]
  | afterUnit mark high =>
    cases h : high with
    | none =>
      simp only [readText, beq_iff_eq, if_neg hquote, if_neg hslash, if_neg hplain, flushHigh]
    | some unit =>
      rw [h] at hstate
      cases hstate
  | escape mark high => cases hstate
  | unit mark missing value high => cases hstate

/-- A character is written after a backslash, as it is, as a unit or as a pair. -/
theorem writtenChar_cases (c : Char) :
    (∃ letter, letter ≠ 'u' ∧ escaped? letter = some c ∧ writtenChar c = ['\\', letter]) ∨
    (c ≠ '\x22' ∧ c ≠ '\\' ∧ (0x20 ≤ c.toNat ∧ c.toNat < 0x7f) ∧ writtenChar c = [c]) ∨
    (c.toNat < 0x10000 ∧ writtenChar c = unitEscape c.toNat) ∨
    (0x10000 ≤ c.toNat ∧ writtenChar c = unitEscape (0xd800 + (c.toNat - 0x10000) / 0x400) ++
      unitEscape (0xdc00 + (c.toNat - 0x10000) % 0x400)) := by
  by_cases hshort : c ∈ ['\x22', '\\', '\n', '\r', '\t', '\x08', '\x0c']
  · left
    simp only [List.mem_cons, List.not_mem_nil, or_false] at hshort
    rcases hshort with rfl | rfl | rfl | rfl | rfl | rfl | rfl
    all_goals exact ⟨_, by decide, rfl, rfl⟩
  · right
    simp only [List.mem_cons, List.not_mem_nil, or_false, not_or] at hshort
    obtain ⟨hquote, hslash, hn, hr, ht, hb, hf⟩ := hshort
    simp only [writtenChar, if_neg hquote, if_neg hslash, if_neg hn, if_neg hr, if_neg ht,
      if_neg hb, if_neg hf]
    by_cases hplain : (decide (0x20 ≤ c.toNat) && decide (c.toNat < 0x7f)) = true
    · left
      rw [if_pos hplain]
      simp only [Bool.and_eq_true, decide_eq_true_eq] at hplain
      exact ⟨hquote, hslash, hplain, rfl⟩
    · right
      rw [if_neg hplain]
      by_cases hsmall : c.toNat < 0x10000
      · exact Or.inl ⟨hsmall, if_pos hsmall⟩
      · exact Or.inr ⟨Nat.le_of_not_lt hsmall, if_neg hsmall⟩

/-- **A character is read back from what it is written as.** -/
theorem readText_writtenChar {state : TextState} (hstate : state.IsBetween) (c : Char)
    (start offset : Nat) (read rest : List Char) :
    ∃ next after, TextState.IsBetween next ∧
      readText start state offset read (writtenChar c ++ rest) =
        readText start next after (c :: read) rest := by
  rcases writtenChar_cases c with ⟨letter, hletter, hescaped, hwritten⟩ |
    ⟨hquote, hslash, ⟨hcontrol, -⟩, hwritten⟩ | ⟨hsmall, hwritten⟩ | ⟨hlarge, hwritten⟩
  · rw [hwritten]
    exact ⟨.plain, _, trivial, readText_escaped hstate hletter hescaped _ _ _ _⟩
  · rw [hwritten]
    exact ⟨.plain, _, trivial, readText_plain hstate hquote hslash hcontrol _ _ _ _⟩
  · obtain ⟨hhigh, hlow⟩ := not_surrogate c
    obtain ⟨mark, hread⟩ := readText_unitEscape hstate hsmall hhigh hlow start offset read rest
    rw [Char.ofNat_toNat, ← hwritten] at hread
    exact ⟨.afterUnit mark none, _, rfl, hread⟩
  · obtain ⟨hhigh, hlow, hpair⟩ := pair_of_large hlarge
    obtain ⟨mark, hread⟩ := readText_pairEscape hstate hhigh hlow start offset read rest
    rw [hpair, ← hwritten] at hread
    exact ⟨.afterUnit mark none, _, rfl, hread⟩

/-- **A text is read back from what it is written as.** -/
theorem readText_written {state : TextState} (hstate : state.IsBetween) (cs : List Char)
    (start offset : Nat) (read rest : List Char) :
    ∃ after, readText start state offset read (cs.flatMap writtenChar ++ '\x22' :: rest) =
      .ok (read.reverse ++ cs, after, rest) := by
  induction cs generalizing state offset read with
  | nil =>
    rw [List.append_nil]
    cases state with
    | plain => exact ⟨_, rfl⟩
    | afterUnit mark high =>
      cases hstate
      exact ⟨_, rfl⟩
    | escape mark high => cases hstate
    | unit mark missing value high => cases hstate
  | cons c cs ih =>
    rw [List.flatMap_cons, List.append_assoc]
    obtain ⟨next, after, hnext, hread⟩ := readText_writtenChar hstate c start offset read
      (cs.flatMap writtenChar ++ '\x22' :: rest)
    rw [hread]
    obtain ⟨after, hrest⟩ := ih hnext after (c :: read)
    refine ⟨after, ?_⟩
    rw [hrest]
    simp

/-! ## Integers -/

/-- What follows a number and does not continue it. -/
def EndsNumber (rest : List Char) : Prop :=
  ∀ c ∈ rest.head?, c.isDigit = false ∧ c ≠ '.' ∧ c ≠ 'e' ∧ c ≠ 'E'

theorem digitValue?_of_isDigit {c : Char} (h : c.isDigit = true) :
    digitValue? c = some (c.toNat - 48) := by
  have hrange : 48 ≤ c.toNat ∧ c.toNat ≤ 57 := Char.isDigit_iff_toNat.mp h
  have hzero : (decide (0x30 ≤ c.toNat) && decide (c.toNat < 0x30 + 10)) = true := by
    simp only [Bool.and_eq_true, decide_eq_true_eq]
    omega
  simp only [digitValue?, digitZeros, List.find?_cons, hzero, Option.map_some]

theorem digitsValue_toDigits (n : Nat) : digitsValue (Nat.toDigits 10 n) = n := by
  have hfold : ∀ (cs : List Char) (m : Nat), (∀ c ∈ cs, c.isDigit = true) →
      cs.foldl (fun n c => 10 * n + (digitValue? c).getD 0) m = Nat.ofDigitChars 10 cs m := by
    intro cs
    induction cs with
    | nil =>
      intro m _
      rfl
    | cons c cs ih =>
      intro m hcs
      rw [List.forall_mem_cons] at hcs
      rw [List.foldl_cons, Nat.ofDigitChars_cons, ih _ hcs.2, digitValue?_of_isDigit hcs.1]
      rfl
  unfold digitsValue
  rw [hfold _ _ fun c hc => Nat.isDigit_of_mem_toDigits (by decide) (by decide) hc]
  exact Nat.ofDigitChars_ten_toDigits

/-- Only zero is written with a zero in front. -/
theorem head?_toDigits_ne_zero {n : Nat} (h : 0 < n) : (Nat.toDigits 10 n).head? ≠ some '0' := by
  induction n using Nat.strong_induction_on with
  | _ n ih =>
    by_cases hn : n < 10
    · rw [Nat.toDigits_of_lt_base hn, List.head?_singleton]
      intro heq
      have := Nat.digitChar_eq_zero.mp (Option.some.inj heq)
      omega
    · rw [Nat.toDigits_of_base_le (by decide) (by omega),
        List.head?_append_of_ne_nil _ Nat.toDigits_ne_nil]
      exact ih (n / 10) (by omega) (by omega)

theorem splitWhole_toDigits (n : Nat) {rest : List Char} (h : EndsNumber rest) :
    splitWhole (Nat.toDigits 10 n ++ rest) = (Nat.toDigits 10 n, rest) := by
  by_cases hn : n = 0
  · subst hn
    rfl
  · have hall : ∀ c ∈ Nat.toDigits 10 n, c.isDigit = true :=
      fun c hc => Nat.isDigit_of_mem_toDigits (by decide) (by decide) hc
    have hstop : rest.takeWhile Char.isDigit = [] ∧ rest.dropWhile Char.isDigit = rest := by
      cases rest with
      | nil => exact ⟨rfl, rfl⟩
      | cons c cs =>
        have hc : ¬c.isDigit = true := Bool.not_eq_true _ ▸ (h c rfl).1
        exact ⟨List.takeWhile_cons_of_neg hc, List.dropWhile_cons_of_neg hc⟩
    unfold splitWhole
    split
    case h_1 cs heq =>
      have hhead := head?_toDigits_ne_zero (Nat.pos_of_ne_zero hn)
      refine absurd ?_ hhead
      rw [← List.head?_append_of_ne_nil _ Nat.toDigits_ne_nil, heq]
      rfl
    case h_2 =>
      rw [List.takeWhile_append_of_pos hall, List.dropWhile_append_of_pos hall, hstop.1, hstop.2,
        List.append_nil]

theorem splitFraction_of_ends {rest : List Char} (h : EndsNumber rest) :
    splitFraction rest = ([], rest) := by
  unfold splitFraction
  split
  case h_1 cs => exact absurd rfl (h '.' rfl).2.1
  case h_2 => rfl

theorem splitExponent_of_ends {rest : List Char} (h : EndsNumber rest) :
    splitExponent rest = (none, rest) := by
  cases rest with
  | nil => rfl
  | cons c cs =>
    obtain ⟨-, -, hsmall, hlarge⟩ := h c rfl
    simp [splitExponent, hsmall, hlarge]

theorem readNumber?_toDigits {n : Nat} (hn : n < 10 ^ digitLimit) (negative : Bool) (offset : Nat)
    {rest : List Char} (h : EndsNumber rest) :
    readNumber? negative offset (Nat.toDigits 10 n ++ rest) =
      some (.scalar (.int (signed negative n)), rest) := by
  have hlength : ¬(Nat.toDigits 10 n).length > digitLimit :=
    Nat.not_lt.mpr ((Nat.length_toDigits_le_iff (by decide) (by decide)).mpr hn)
  have hne : (Nat.toDigits 10 n).isEmpty = false := by simp
  simp only [readNumber?, splitWhole_toDigits n h, splitFraction_of_ends h,
    splitExponent_of_ends h, hne, digitsValue_toDigits, if_neg hlength]
  rfl

/-- No word of the language begins like a number. -/
theorem find?_words_eq_none {c : Char} (hc : c.isDigit = true) (cs : List Char) :
    (words.find? fun word => word.1.toList.isPrefixOf (c :: cs)) = none ∧
      (words.find? fun word => word.1.toList.isPrefixOf ('-' :: c :: cs)) = none := by
  have hletters : ∀ letter ∈ ['n', 't', 'f', 'N', 'I', '-'], (letter == c) = false := by
    intro letter hletter
    rw [beq_eq_false_iff_ne]
    rintro rfl
    have hdigits : ∀ letter ∈ ['n', 't', 'f', 'N', 'I', '-'], letter.isDigit = false := by simp
    rw [hdigits _ hletter] at hc
    cases hc
  simp only [List.forall_mem_cons] at hletters
  obtain ⟨hn, ht, hf, hN, hI, hminus, -⟩ := hletters
  constructor
  · simp [words, List.isPrefixOf, hn, ht, hf, hN, hI, hminus]
  · simp [words, List.isPrefixOf, hI]

/-- **An integer is read back from what it is written as.** -/
theorem readScalar?_int {n : Int} (hn : isWritable n = true) (offset : Nat) {rest : List Char}
    (h : EndsNumber rest) :
    readScalar? offset ((toString n).toList ++ rest) = some (.scalar (.int n), rest) := by
  have hsize : n.natAbs < 10 ^ digitLimit := isWritable_iff.mp hn
  obtain ⟨c, cs, hdigits⟩ : ∃ c cs, Nat.toDigits 10 n.natAbs = c :: cs :=
    List.exists_cons_of_ne_nil Nat.toDigits_ne_nil
  have hc : c.isDigit = true :=
    Nat.isDigit_of_mem_toDigits (by decide) (by decide) (hdigits ▸ List.mem_cons_self)
  obtain ⟨hpositive, hnegative⟩ := find?_words_eq_none hc (cs ++ rest)
  rw [toList_toString, List.append_assoc]
  by_cases hneg : n < 0
  · have hvalue : signed true n.natAbs = n := by
      unfold signed
      rw [if_pos rfl]
      omega
    have hread := readNumber?_toDigits hsize true offset h
    rw [hdigits, hvalue] at hread
    rw [if_pos hneg, hdigits]
    show readScalar? offset ('-' :: c :: (cs ++ rest)) = _
    unfold readScalar?
    rw [hnegative]
    exact hread
  · have hvalue : signed false n.natAbs = n := by
      unfold signed
      rw [if_neg (by decide)]
      omega
    have hread := readNumber?_toDigits hsize false offset h
    rw [hdigits, hvalue] at hread
    rw [if_neg hneg, hdigits]
    show readScalar? offset (c :: (cs ++ rest)) = _
    unfold readScalar?
    rw [hpositive]
    dsimp only
    split
    case h_1 after heq =>
      rw [(List.cons.inj heq).1] at hc
      exact absurd hc (by decide)
    case h_2 => exact hread

end SeamLint.Json
