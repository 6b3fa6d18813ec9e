import Mathlib.Algebra.Order.Ring.Int
import Mathlib.Data.List.Basic
import Mathlib.Data.List.TakeWhile
import SeamLint.Number.Integer

set_option autoImplicit false

/-! # Texts that denote integers

A text is shaped like an integer if it is digits with a sign or none before them and blanks
around them (`isIntegerShaped_iff`). Reading it is another matter: of the blanks, the separators
U+001C to U+001F are refused, and so are too many digits. `readInteger_of_form` says what comes
of reading such a text, part by part, and `exists_readInteger_iff` when a number comes of it.
Numbers with too many digits are not written either, but those that were read are
(`isWritable_of_readInteger`).
-/

namespace SeamLint.Number

open SeamLint.Text

/-! ## Characters -/

/-- A digit stands among the ten characters after the zero of its script. -/
theorem exists_zero_of_isDigit {c : Char} (h : isDigit c = true) :
    ∃ z ∈ digitZeros, ∃ k < 10, c = Char.ofNat (z + k) := by
  obtain ⟨v, hv⟩ := Option.isSome_iff_exists.mp h
  obtain ⟨z, hz, -⟩ := Option.map_eq_some_iff.mp hv
  have hrange := List.find?_some hz
  simp only [Bool.and_eq_true, decide_eq_true_iff] at hrange
  refine ⟨z, List.mem_of_find?_eq_some hz, c.toNat - z, by omega, ?_⟩
  rw [Nat.add_sub_cancel' hrange.1, Char.ofNat_toNat]

/-- No digit of any script is a blank, a sign or an underscore. -/
theorem digits_apart : ∀ z ∈ digitZeros, ∀ k < 10,
    isBlank (Char.ofNat (z + k)) = false ∧ Char.ofNat (z + k) ∉ ['+', '-', '_'] := by
  decide +kernel

theorem isBlank_of_isDigit {c : Char} (h : isDigit c = true) : isBlank c = false := by
  obtain ⟨z, hz, k, hk, rfl⟩ := exists_zero_of_isDigit h
  exact (digits_apart z hz k hk).1

theorem not_mem_signs_of_isDigit {c : Char} (h : isDigit c = true) : c ∉ ['+', '-', '_'] := by
  obtain ⟨z, hz, k, hk, rfl⟩ := exists_zero_of_isDigit h
  exact (digits_apart z hz k hk).2

theorem isDigit_of_isBlank {c : Char} (h : isBlank c = true) : isDigit c = false := by
  by_contra hdigit
  rw [isBlank_of_isDigit (Bool.not_eq_false _ ▸ hdigit)] at h
  cases h

/-- The blanks that may stand around a number are those that are no separators. -/
theorem isNumberBlank_iff {c : Char} (h : isBlank c = true) :
    isNumberBlank c = true ↔ ¬(0x1c ≤ c.toNat ∧ c.toNat ≤ 0x1f) := by
  simp only [isNumberBlank, h, Bool.true_and, Bool.not_eq_true', ← Bool.not_eq_true,
    Bool.and_eq_true, decide_eq_true_iff]

/-! ## The shape of integers -/

/-- A sign, or none. -/
def IsSign (sign : List Char) : Prop := sign = [] ∨ sign = ['+'] ∨ sign = ['-']

/-- The text is made of blanks, a sign or none, digits, and blanks. -/
structure IntegerForm (text left sign digits right : List Char) : Prop where
  text_eq : text = left ++ (sign ++ (digits ++ right))
  left_blank : ∀ c ∈ left, isBlank c = true
  isSign : IsSign sign
  digits_ne : digits ≠ []
  digits_digit : ∀ c ∈ digits, isDigit c = true
  right_blank : ∀ c ∈ right, isBlank c = true

/-- Trimming cuts off blanks and nothing else. -/
theorem exists_trim_eq (text : List Char) :
    ∃ left right, text = left ++ (trim text ++ right) ∧
      (∀ c ∈ left, isBlank c = true) ∧ ∀ c ∈ right, isBlank c = true := by
  refine ⟨text.takeWhile isBlank, ((text.dropWhile isBlank).reverse.takeWhile isBlank).reverse,
    ?_, fun c hc => List.mem_takeWhile_imp hc,
    fun c hc => List.mem_takeWhile_imp (List.mem_reverse.mp hc)⟩
  rw [trim, trimEnd, ← List.reverse_append, List.takeWhile_append_dropWhile, List.reverse_reverse,
    List.takeWhile_append_dropWhile]

/-- Blanks are cut off up to the first and from the last character that is none. -/
theorem trim_eq_of_ends {left middle right : List Char} (hleft : ∀ c ∈ left, isBlank c = true)
    (hright : ∀ c ∈ right, isBlank c = true) (hhead : ∀ c ∈ middle.head?, isBlank c = false)
    (hlast : ∀ c ∈ middle.getLast?, isBlank c = false) (hne : middle ≠ []) :
    trim (left ++ (middle ++ right)) = middle := by
  have hfront : (left ++ (middle ++ right)).dropWhile isBlank = middle ++ right := by
    rw [List.dropWhile_append_of_pos hleft]
    cases middle with
    | nil => exact absurd rfl hne
    | cons c middle => simp [hhead c rfl]
  have hback : (middle ++ right).reverse.dropWhile isBlank = middle.reverse := by
    rw [List.reverse_append,
      List.dropWhile_append_of_pos fun c hc => hright c (List.mem_reverse.mp hc)]
    cases hmiddle : middle.reverse with
    | nil => rfl
    | cons c rest =>
        have hc : middle.getLast? = some c := by
          rw [← List.head?_reverse, hmiddle]
          rfl
        simp [hlast c hc]
  rw [trim, trimEnd, hfront, hback, List.reverse_reverse]

/-- What is split off is a sign or nothing. -/
theorem exists_sign (text : List Char) :
    ∃ sign, IsSign sign ∧ text = sign ++ (splitSign text).2 := by
  unfold splitSign
  split
  · exact ⟨['-'], Or.inr (Or.inr rfl), rfl⟩
  · exact ⟨['+'], Or.inr (Or.inl rfl), rfl⟩
  · exact ⟨[], Or.inl rfl, rfl⟩

theorem splitSign_of_digit {c : Char} (hc : isDigit c = true) (rest : List Char) :
    splitSign (c :: rest) = (false, c :: rest) := by
  have hsign := not_mem_signs_of_isDigit hc
  unfold splitSign
  split
  · next heq => cases heq; simp at hsign
  · next heq => cases heq; simp at hsign
  · rfl

/-- A sign in front of digits is split off. -/
theorem splitSign_append {sign digits : List Char} (hsign : IsSign sign)
    (hne : digits ≠ []) (hdigits : ∀ c ∈ digits, isDigit c = true) (rest : List Char) :
    splitSign (sign ++ (digits ++ rest)) = (sign == ['-'], digits ++ rest) := by
  cases digits with
  | nil => exact absurd rfl hne
  | cons c digits =>
      have hc := splitSign_of_digit (hdigits c List.mem_cons_self) (digits ++ rest)
      rcases hsign with rfl | rfl | rfl
      · exact hc
      · rfl
      · rfl

theorem apart_of_mem_sign {sign : List Char} (hsign : IsSign sign) {c : Char} (hc : c ∈ sign) :
    isBlank c = false ∧ isDigit c = false := by
  rcases hsign with rfl | rfl | rfl
  · cases hc
  · obtain rfl := List.mem_singleton.mp hc
    decide
  · obtain rfl := List.mem_singleton.mp hc
    decide

section Form

variable {text left sign digits right : List Char}

/-- Sign and digits hold no blanks. -/
theorem IntegerForm.isBlank_eq_false (h : IntegerForm text left sign digits right) {c : Char}
    (hc : c ∈ sign ++ digits) : isBlank c = false := by
  rcases List.mem_append.mp hc with hc | hc
  · exact (apart_of_mem_sign h.isSign hc).1
  · exact isBlank_of_isDigit (h.digits_digit c hc)

theorem IntegerForm.trim_eq (h : IntegerForm text left sign digits right) :
    trim text = sign ++ digits := by
  have hne : sign ++ digits ≠ [] := by simp [h.digits_ne]
  rw [h.text_eq, ← List.append_assoc sign]
  refine trim_eq_of_ends h.left_blank h.right_blank ?_ ?_ hne
  · intro c hc
    exact h.isBlank_eq_false (List.mem_of_mem_head? hc)
  · intro c hc
    exact h.isBlank_eq_false (List.mem_of_mem_getLast? hc)

/-- **A text is shaped like an integer if and only if it has these parts.** -/
theorem isIntegerShaped_iff : isIntegerShaped text = true ↔
    ∃ left sign digits right, IntegerForm text left sign digits right := by
  constructor
  · intro h
    simp only [isIntegerShaped, Bool.and_eq_true, Bool.not_eq_true', List.isEmpty_eq_false_iff,
      List.all_eq_true] at h
    obtain ⟨left, right, htext, hleft, hright⟩ := exists_trim_eq text
    obtain ⟨sign, hsign, htrim⟩ := exists_sign (trim text)
    refine ⟨left, sign, (splitSign (trim text)).2, right, ?_, hleft, hsign, h.1, h.2, hright⟩
    rw [← List.append_assoc sign, ← htrim]
    exact htext
  · rintro ⟨left, sign, digits, right, h⟩
    have hsplit := splitSign_append h.isSign h.digits_ne h.digits_digit []
    rw [List.append_nil] at hsplit
    have hdigits : (splitSign (trim text)).2 = digits := by rw [h.trim_eq, hsplit]
    simp only [isIntegerShaped, hdigits, Bool.and_eq_true, Bool.not_eq_true',
      List.isEmpty_eq_false_iff, List.all_eq_true]
    exact ⟨h.digits_ne, h.digits_digit⟩

/-! ## Reading -/

/-- Reading starts at the first blank that may not stand before a number, if there is one. -/
theorem IntegerForm.dropWhile_of_not_all (h : IntegerForm text left sign digits right)
    (hleft : left.all isNumberBlank = false) :
    ∃ c rest, text.dropWhile isNumberBlank = c :: rest ∧ isBlank c = true := by
  obtain ⟨c, hc, hcblank⟩ := List.all_eq_false.mp hleft
  have hdrop : left.dropWhile isNumberBlank ≠ [] := by
    intro hnil
    exact hcblank (List.dropWhile_eq_nil_iff.mp hnil c hc)
  obtain ⟨d, rest, hd⟩ := List.exists_cons_of_ne_nil hdrop
  refine ⟨d, rest ++ (sign ++ (digits ++ right)), ?_, h.left_blank d ?_⟩
  · rw [h.text_eq, List.dropWhile_append, hd]
    rfl
  · exact (List.dropWhile_sublist isNumberBlank).mem (hd ▸ List.mem_cons_self)

theorem readInteger_of_blank {c : Char} {rest : List Char} {text : String}
    (h : text.toList.dropWhile isNumberBlank = c :: rest) (hc : isBlank c = true) :
    readInteger text = .error (.malformed text) := by
  have hsign : c ≠ '-' ∧ c ≠ '+' ∧ c ≠ '_' := by
    refine ⟨?_, ?_, ?_⟩ <;> · rintro rfl; revert hc; decide
  have hsplit : splitSign (c :: rest) = (false, c :: rest) := by
    unfold splitSign
    split
    · next heq => cases heq; exact absurd rfl hsign.1
    · next heq => cases heq; exact absurd rfl hsign.2.1
    · rfl
  simp [readInteger, h, hsplit, isDigit_of_isBlank hc, hsign.2.2, pieces]

theorem pieces_of_all_not {p : Char → Bool} {s : List Char} (h : ∀ c ∈ s, p c = false) :
    pieces p s = [s] := by
  induction s with
  | nil => rfl
  | cons c s ih =>
      have hc := h c List.mem_cons_self
      have hs := ih fun d hd => h d (List.mem_cons_of_mem _ hd)
      simp [pieces, hc, hs]

/-- Digits are read up to the first blank. -/
theorem span_digits (hdigits : ∀ c ∈ digits, isDigit c = true)
    (hright : ∀ c ∈ right, isBlank c = true) :
    (digits ++ right).takeWhile (fun c => isDigit c || c == '_') = digits ∧
      (digits ++ right).dropWhile (fun c => isDigit c || c == '_') = right := by
  have hpos : ∀ c ∈ digits, (isDigit c || c == '_') = true := by
    intro c hc
    simp [hdigits c hc]
  have hneg : ∀ c ∈ right, (isDigit c || c == '_') = false := by
    intro c hc
    have hne : c ≠ '_' := by
      rintro rfl
      have := hright '_' hc
      revert this
      decide
    simp [isDigit_of_isBlank (hright c hc), hne]
  rw [List.takeWhile_append_of_pos hpos, List.dropWhile_append_of_pos hpos]
  cases right with
  | nil => simp
  | cons c right => simp [hneg c List.mem_cons_self]

/-- **What reading comes to**, part by part: a separator before the number is found first, then
too many digits, then a separator behind the number. -/
theorem readInteger_of_form {text : String} (h : IntegerForm text.toList left sign digits right) :
    readInteger text =
      if left.all isNumberBlank = false then .error (.malformed text)
      else if digitLimit < digits.length then .error (.tooLong digits.length)
      else if right.all isNumberBlank = false then .error (.malformed text)
      else .ok (signed (sign == ['-']) (digitsValue digits)) := by
  cases hleft : left.all isNumberBlank with
  | false =>
      obtain ⟨c, rest, hdrop, hc⟩ := h.dropWhile_of_not_all hleft
      rw [if_pos rfl, readInteger_of_blank hdrop hc]
  | true =>
      have hsplit := splitSign_append h.isSign h.digits_ne h.digits_digit right
      obtain ⟨htake, hdropDigits⟩ := span_digits h.digits_digit h.right_blank
      have hfront : text.toList.dropWhile isNumberBlank = sign ++ (digits ++ right) := by
        rw [h.text_eq, List.dropWhile_append_of_pos (List.all_eq_true.mp hleft),
          ← List.append_assoc]
        -- the first character after the blanks is a sign or a digit, and no blank
        have hne : sign ++ digits ≠ [] := by simp [h.digits_ne]
        obtain ⟨d, rest, hd⟩ := List.exists_cons_of_ne_nil hne
        have hblank : isBlank d = false := h.isBlank_eq_false (hd ▸ List.mem_cons_self)
        rw [hd, List.cons_append, List.dropWhile_cons_of_neg]
        simp [isNumberBlank, hblank]
      have hpieces : pieces (· == '_') digits = [digits] := by
        refine pieces_of_all_not fun c hc => ?_
        have hapart := not_mem_signs_of_isDigit (h.digits_digit c hc)
        simp only [List.mem_cons, List.not_mem_nil, or_false, not_or] at hapart
        simp [hapart.2.2]
      rw [if_neg (by simp)]
      simp only [readInteger, hfront, hsplit, htake, hdropDigits, hpieces, List.any_cons,
        List.any_nil, Bool.or_false, List.isEmpty_iff, h.digits_ne, if_false, List.flatten_cons,
        List.flatten_nil, List.append_nil, gt_iff_lt, Bool.not_eq_true']

/-- A text is readable as a number if it has no more digits than are read and none of the
separators U+001C to U+001F. -/
def IsReadable (text : List Char) : Prop :=
  text.countP isDigit ≤ digitLimit ∧ ∀ c ∈ text, ¬(0x1c ≤ c.toNat ∧ c.toNat ≤ 0x1f)

/-- A short text without separators is readable, whatever else stands in it. -/
theorem isReadable_of_short {text : List Char} (hlength : text.length ≤ digitLimit)
    (h : text.all (fun c => decide (c.toNat < 0x1c) || decide (0x1f < c.toNat)) = true) :
    IsReadable text := by
  refine ⟨List.countP_le_length.trans hlength, fun c hc hrange => ?_⟩
  have hc' := List.all_eq_true.mp h c hc
  simp only [Bool.or_eq_true, decide_eq_true_iff] at hc'
  omega

theorem IntegerForm.countP_isDigit (h : IntegerForm text left sign digits right) :
    text.countP isDigit = digits.length := by
  have hblank (s : List Char) (hs : ∀ c ∈ s, isBlank c = true) : s.countP isDigit = 0 :=
    List.countP_eq_zero.mpr fun c hc => by simp [isDigit_of_isBlank (hs c hc)]
  have hsign : sign.countP isDigit = 0 :=
    List.countP_eq_zero.mpr fun c hc => by simp [(apart_of_mem_sign h.isSign hc).2]
  rw [h.text_eq, List.countP_append, List.countP_append, List.countP_append,
    hblank left h.left_blank, hblank right h.right_blank, hsign,
    List.countP_eq_length.mpr h.digits_digit]
  omega

theorem IntegerForm.isReadable_iff (h : IntegerForm text left sign digits right) :
    IsReadable text ↔
      left.all isNumberBlank = true ∧ digits.length ≤ digitLimit ∧
        right.all isNumberBlank = true := by
  have hblank (s : List Char) (hs : ∀ c ∈ s, isBlank c = true) :
      s.all isNumberBlank = true ↔ ∀ c ∈ s, ¬(0x1c ≤ c.toNat ∧ c.toNat ≤ 0x1f) := by
    rw [List.all_eq_true]
    exact forall₂_congr fun c hc => isNumberBlank_iff (hs c hc)
  -- neither signs nor digits are separators: a separator is a blank
  have hother : ∀ c ∈ sign ++ digits, ¬(0x1c ≤ c.toNat ∧ c.toNat ≤ 0x1f) := by
    intro c hc hrange
    have hblank : isBlank c = true := by
      simp only [isBlank, Bool.or_eq_true, Bool.and_eq_true, decide_eq_true_iff]
      omega
    rw [h.isBlank_eq_false hc] at hblank
    cases hblank
  rw [IsReadable, h.countP_isDigit, hblank left h.left_blank, hblank right h.right_blank,
    h.text_eq, ← List.append_assoc sign]
  simp only [List.forall_mem_append]
  constructor
  · rintro ⟨hdigits, hleft, -, hright⟩
    exact ⟨hleft, hdigits, hright⟩
  · rintro ⟨hleft, hdigits, hright⟩
    exact ⟨hdigits, hleft, List.forall_mem_append.mp hother, hright⟩

end Form

/-- **A text that is shaped like an integer is read as one if and only if it is readable.** -/
theorem exists_readInteger_iff {text : String} (h : isIntegerShaped text.toList = true) :
    (∃ n, readInteger text = .ok n) ↔ IsReadable text.toList := by
  obtain ⟨left, sign, digits, right, hform⟩ := isIntegerShaped_iff.mp h
  rw [hform.isReadable_iff, readInteger_of_form hform]
  cases hleft : left.all isNumberBlank with
  | false => simp
  | true =>
      cases hright : right.all isNumberBlank with
      | false => by_cases hlength : digitLimit < digits.length <;> simp [hlength]
      | true =>
          by_cases hlength : digitLimit < digits.length
          · simp [hlength]
          · simp [hlength, Nat.le_of_not_lt hlength]

/-! ## The size of what is read -/

theorem digitValue?_lt {c : Char} {v : Nat} (h : digitValue? c = some v) : v < 10 := by
  obtain ⟨z, hz, rfl⟩ := Option.map_eq_some_iff.mp h
  have hrange := List.find?_some hz
  simp only [Bool.and_eq_true, decide_eq_true_iff] at hrange
  omega

/-- A number has no more digits than it is written with. -/
theorem digitsValue_lt (digits : List Char) : digitsValue digits < 10 ^ digits.length := by
  -- for the induction, with any number in front of the digits
  have key (digits : List Char) (n : Nat) :
      digits.foldl (fun n c => 10 * n + (digitValue? c).getD 0) n <
        (n + 1) * 10 ^ digits.length := by
    induction digits generalizing n with
    | nil => simp
    | cons c digits ih =>
        have hdigit : (digitValue? c).getD 0 < 10 := by
          cases hc : digitValue? c with
          | none => decide
          | some v => exact digitValue?_lt hc
        calc (c :: digits).foldl (fun n c => 10 * n + (digitValue? c).getD 0) n
            < (10 * n + (digitValue? c).getD 0 + 1) * 10 ^ digits.length := ih _
          _ ≤ ((n + 1) * 10) * 10 ^ digits.length := Nat.mul_le_mul_right _ (by omega)
          _ = (n + 1) * 10 ^ (c :: digits).length := by
              rw [List.length_cons, Nat.pow_succ', Nat.mul_assoc]
  have hzero := key digits 0
  rw [Nat.zero_add, Nat.one_mul] at hzero
  exact hzero

theorem isWritable_iff {n : Int} : isWritable n = true ↔ n.natAbs < 10 ^ digitLimit :=
  decide_eq_true_iff

theorem isWritable_iff_lt {n : Int} :
    isWritable n = true ↔ -10 ^ digitLimit < n ∧ n < 10 ^ digitLimit := by
  have hcast : ((10 ^ digitLimit : Nat) : Int) = 10 ^ digitLimit := by
    push_cast
    rfl
  rw [isWritable_iff, ← hcast]
  omega

/-- What can be read can be written. -/
theorem isWritable_of_readInteger {text : String} {n : Int}
    (hshape : isIntegerShaped text.toList = true) (h : readInteger text = .ok n) :
    isWritable n = true := by
  obtain ⟨left, sign, digits, right, hform⟩ := isIntegerShaped_iff.mp hshape
  have hreadable := (exists_readInteger_iff hshape).mp ⟨n, h⟩
  obtain ⟨hleft, hlength, hright⟩ := hform.isReadable_iff.mp hreadable
  rw [readInteger_of_form hform, hleft, hright, if_neg (by simp), if_neg (by omega),
    if_neg (by simp)] at h
  have habs : n.natAbs = digitsValue digits := by
    rw [← Except.ok.inj h]
    unfold signed
    split
    · exact Int.natAbs_neg _
    · rfl
  rw [isWritable_iff, habs]
  exact (digitsValue_lt digits).trans_le (Nat.pow_le_pow_right (by decide) hlength)

/-- Numbers of one or two digits can be written. -/
theorem isWritable_of_small {n : Int} (h : n.natAbs < 10 ^ 2) : isWritable n = true :=
  isWritable_iff.mpr (h.trans_le (Nat.pow_le_pow_right (by decide) (by decide)))

end SeamLint.Number
