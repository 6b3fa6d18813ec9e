import Mathlib.Data.Nat.Digits.Defs
import SeamLint.Proofs.JsonScalars
import SeamLint.Proofs.LayeredOptions
import SeamLint.Proofs.OptionLayers

set_option autoImplicit false

/-! # Texts that set thresholds

A text denotes an integer if it is written with decimal digits, of whichever scripts, after a sign
or none and between blanks (`Denotes`). A threshold is the integer that its text denotes, or else
the default (`readThreshold_of_denotes`, `readThreshold_of_not_denotes`). A text that is neither
blank nor an integer is noticed, and no other is (`ignoredValue_mem_notices_iff`).

A number in the options becomes a text by writing its digits, so it is the threshold that it looks
like (`denotes_toString`).
-/

namespace SeamLint.Number

open SeamLint.Text

/-! ## The integer that a text denotes -/

/-- The character is the digit with this value in some script. -/
def IsDigitOf (c : Char) (v : Nat) : Prop := v < 10 ∧ ∃ z ∈ digitZeros, c.toNat = z + v

/-- The text denotes the integer: up to blanks at both ends it is a sign or none and decimal digits,
and the values of the digits are those of the integer in base ten. -/
def Denotes (text : List Char) (n : Int) : Prop :=
  ∃ left sign digits right values, IntegerForm text left sign digits right ∧
    List.Forall₂ IsDigitOf digits values ∧
    n = signed (sign == ['-']) (Nat.ofDigits 10 values.reverse)

/-- The digits of two scripts stand apart. -/
theorem zeros_apart {z z' : Nat} (hz : z ∈ digitZeros) (hz' : z' ∈ digitZeros) :
    z + 10 ≤ z' ∨ z' + 10 ≤ z ∨ z = z' := by
  have hincreasing : digitZeros.Pairwise fun z z' => z + 10 ≤ z' := by decide +kernel
  have hbefore : digitZeros.Pairwise fun z z' => z + 10 ≤ z' ∨ z' + 10 ≤ z ∨ z = z' :=
    hincreasing.imp Or.inl
  have hafter : digitZeros.Pairwise fun z' z => z + 10 ≤ z' ∨ z' + 10 ≤ z ∨ z = z' :=
    hincreasing.imp fun h => Or.inr (Or.inl h)
  have hself : ∀ z ∈ digitZeros, z + 10 ≤ z ∨ z + 10 ≤ z ∨ z = z := fun _ _ => Or.inr (Or.inr rfl)
  exact List.Pairwise.forall_of_forall_of_flip hself hbefore hafter hz hz'

theorem digitValue?_eq_some_iff {c : Char} {v : Nat} : digitValue? c = some v ↔ IsDigitOf c v := by
  constructor
  · intro h
    refine ⟨digitValue?_lt h, ?_⟩
    obtain ⟨z, hz, rfl⟩ := Option.map_eq_some_iff.mp h
    have hrange := List.find?_some hz
    simp only [Bool.and_eq_true, decide_eq_true_iff] at hrange
    exact ⟨z, List.mem_of_find?_eq_some hz, by omega⟩
  · rintro ⟨hv, z', hmem, hc⟩
    have hfound : (digitZeros.find? fun z => z ≤ c.toNat && c.toNat < z + 10).isSome := by
      rw [List.find?_isSome]
      refine ⟨z', hmem, ?_⟩
      simp only [Bool.and_eq_true, decide_eq_true_iff]
      omega
    obtain ⟨z, hz⟩ := Option.isSome_iff_exists.mp hfound
    have hrange := List.find?_some hz
    simp only [Bool.and_eq_true, decide_eq_true_iff] at hrange
    -- the zero that is found first is the only one near enough
    have hapart := zeros_apart (List.mem_of_find?_eq_some hz) hmem
    obtain rfl : z = z' := by omega
    rw [digitValue?, hz, Option.map_some]
    congr 1
    omega

/-- Digits are read in base ten. -/
theorem digitsValue_eq_ofDigits {digits : List Char} {values : List Nat}
    (h : List.Forall₂ IsDigitOf digits values) :
    digitsValue digits = Nat.ofDigits 10 values.reverse := by
  have hfold (m : Nat) : digits.foldl (fun n c => 10 * n + (digitValue? c).getD 0) m =
      values.foldl (fun n v => v + 10 * n) m := by
    induction h generalizing m with
    | nil => rfl
    | cons hc _ ih =>
        rw [List.foldl_cons, List.foldl_cons, digitValue?_eq_some_iff.mpr hc, Option.getD_some,
          Nat.add_comm, ih]
  rw [digitsValue, hfold, Nat.ofDigits_eq_foldr, List.foldr_reverse]
  rfl

theorem exists_values {digits : List Char} (h : ∀ c ∈ digits, isDigit c = true) :
    ∃ values, List.Forall₂ IsDigitOf digits values := by
  induction digits with
  | nil => exact ⟨[], .nil⟩
  | cons c digits ih =>
      obtain ⟨hc, hdigits⟩ := List.forall_mem_cons.mp h
      obtain ⟨v, hv⟩ := Option.isSome_iff_exists.mp hc
      obtain ⟨values, hvalues⟩ := ih hdigits
      exact ⟨v :: values, .cons (digitValue?_eq_some_iff.mp hv) hvalues⟩

theorem IntegerForm.denotes {text left sign digits right : List Char}
    (h : IntegerForm text left sign digits right) :
    Denotes text (signed (sign == ['-']) (digitsValue digits)) := by
  obtain ⟨values, hvalues⟩ := exists_values h.digits_digit
  refine ⟨left, sign, digits, right, values, h, hvalues, ?_⟩
  rw [digitsValue_eq_ofDigits hvalues]

/-- The texts that denote an integer are those that are shaped like one. -/
theorem exists_denotes_iff {text : List Char} :
    (∃ n, Denotes text n) ↔ isIntegerShaped text = true := by
  rw [isIntegerShaped_iff]
  constructor
  · rintro ⟨n, left, sign, digits, right, values, hform, -⟩
    exact ⟨left, sign, digits, right, hform⟩
  · rintro ⟨left, sign, digits, right, hform⟩
    exact ⟨_, hform.denotes⟩

/-- **A readable text is read as the integer that it denotes.** -/
theorem readInteger_of_denotes {text : String} {n : Int} (h : Denotes text.toList n)
    (hreadable : IsReadable text.toList) : readInteger text = .ok n := by
  obtain ⟨left, sign, digits, right, values, hform, hvalues, rfl⟩ := h
  obtain ⟨hleft, hlength, hright⟩ := hform.isReadable_iff.mp hreadable
  rw [readInteger_of_form hform, hleft, hright, if_neg (by simp), if_neg (by omega),
    if_neg (by simp), digitsValue_eq_ofDigits hvalues]

/-! ## Integers that were written -/

theorem integerForm_toString (n : Int) :
    IntegerForm (toString n).toList [] (if n < 0 then ['-'] else []) (Nat.toDigits 10 n.natAbs)
      [] where
  text_eq := by rw [toList_toString, List.nil_append, List.append_nil]
  left_blank := by simp
  isSign := by
    split
    · exact Or.inr (Or.inr rfl)
    · exact Or.inl rfl
  digits_ne := by simp
  digits_digit := by
    intro c hc
    have hdigit : c.isDigit = true := Nat.isDigit_of_mem_toDigits (by decide) (by decide) hc
    rw [isDigit, Json.digitValue?_of_isDigit hdigit, Option.isSome_some]
  right_blank := by simp

/-- **What is written for an integer denotes it.** -/
theorem denotes_toString (n : Int) : Denotes (toString n).toList n := by
  have hvalue : signed ((if n < 0 then ['-'] else []) == ['-'])
      (digitsValue (Nat.toDigits 10 n.natAbs)) = n := by
    rw [Json.digitsValue_toDigits]
    split
    · show -((n.natAbs : Nat) : Int) = n
      omega
    · show ((n.natAbs : Nat) : Int) = n
      omega
  have hdenotes := (integerForm_toString n).denotes
  rwa [hvalue] at hdenotes

theorem isReadable_toString {n : Int} (h : isWritable n = true) :
    IsReadable (toString n).toList := by
  refine (integerForm_toString n).isReadable_iff.mpr ⟨rfl, ?_, rfl⟩
  exact (Nat.length_toDigits_le_iff (by decide) (by decide)).mpr (isWritable_iff.mp h)

end SeamLint.Number

namespace SeamLint.Settings

open SeamLint.Data SeamLint.Number SeamLint.Text

/-! ## Thresholds -/

theorem readThreshold_of_denotes {raw : String} {n : Int} (h : Denotes raw.toList n)
    (hreadable : IsReadable raw.toList) (default : Int) :
    readThreshold (some raw) default = .ok n := by
  rw [readThreshold, if_pos (exists_denotes_iff.mp ⟨n, h⟩)]
  exact readInteger_of_denotes h hreadable

theorem readThreshold_of_not_denotes {raw : String} (h : ∀ n, ¬Denotes raw.toList n)
    (default : Int) : readThreshold (some raw) default = .ok default := by
  have hshape : ¬isIntegerShaped raw.toList = true := fun hshape =>
    let ⟨n, hn⟩ := exists_denotes_iff.mpr hshape
    h n hn
  rw [readThreshold, if_neg hshape]

/-! ## Notices -/

theorem trim_eq_nil_iff {text : List Char} : trim text = [] ↔ ∀ c ∈ text, isBlank c = true := by
  refine ⟨fun h => ?_, trim_eq_nil⟩
  obtain ⟨left, right, htext, hleft, hright⟩ := exists_trim_eq text
  rw [h, List.nil_append] at htext
  rw [htext, List.forall_mem_append]
  exact ⟨hleft, hright⟩

/-- A text is ignored if it is neither blank nor an integer. -/
theorem isIgnored_iff {raw : String} :
    isIgnored raw = true ↔
      (∃ c ∈ raw.toList, isBlank c = false) ∧ ∀ n, ¬Denotes raw.toList n := by
  have hblank : trim raw.toList ≠ [] ↔ ∃ c ∈ raw.toList, isBlank c = false := by
    rw [Ne, trim_eq_nil_iff]
    simp
  rw [← hblank, ← not_exists, exists_denotes_iff]
  simp [isIgnored]

theorem mem_resolveThresholds_notices {ruleId : String} {ask : Answers} {number : Nat}
    {defaults values : List (String × Int)}
    (h : (resolveThresholds ruleId ask number defaults).1 = .ok values) (notice : Notice) :
    notice ∈ (resolveThresholds ruleId ask number defaults).2 ↔
      ∃ d ∈ defaults.zipIdx number,
        notice ∈ thresholdNotices (ask d.2 (optionKey ruleId d.1.1)) (optionKey ruleId d.1.1)
          d.1.2 := by
  induction defaults generalizing number values with
  | nil => simp [resolveThresholds]
  | cons d rest ih =>
      obtain ⟨name, default⟩ := d
      simp only [resolveThresholds] at h ⊢
      cases hread : readThreshold (ask number (optionKey ruleId name)).text? default with
      | error fault =>
          -- notices would end here, but all thresholds were read
          rw [hread] at h
          cases h
      | ok value =>
          rw [hread] at h
          cases hrest : (resolveThresholds ruleId ask (number + 1) rest).1 with
          | error fault =>
              simp only [hrest, Except.map] at h
              cases h
          | ok others =>
              simp only [List.zipIdx_cons, List.mem_append, List.exists_mem_cons_iff, ih hrest]

theorem ignoredValue_mem_thresholdNotices_iff {a : Answer} {raw key key' : String}
    {default default' : Int} :
    Notice.ignoredValue raw key default ∈ thresholdNotices a key' default' ↔
      key = key' ∧ default = default' ∧ a = .text raw ∧ isIgnored raw = true := by
  cases a with
  | text s =>
      by_cases hs : isIgnored s = true
      · simp only [thresholdNotices, Answer.notices, hs, if_true, List.nil_append,
          List.mem_singleton, Notice.ignoredValue.injEq, Answer.text.injEq]
        constructor
        · rintro ⟨rfl, rfl, rfl⟩
          exact ⟨rfl, rfl, rfl, hs⟩
        · rintro ⟨rfl, rfl, rfl, -⟩
          exact ⟨rfl, rfl, rfl⟩
      · simp only [thresholdNotices, Answer.notices, hs, List.nil_append, Answer.text.injEq]
        refine ⟨fun h => (nomatch h), ?_⟩
        rintro ⟨-, -, rfl, hraw⟩
        exact absurd hraw hs
  | unset => simp [thresholdNotices, Answer.notices]
  | failed => simp [thresholdNotices, Answer.notices]

/-- A lookup that is not for a threshold ignores nothing. -/
theorem ignoredValue_not_mem_notices (a : Answer) (raw key key' : String) (default : Int) :
    Notice.ignoredValue raw key default ∉ a.notices key' := by
  cases a <;> simp [Answer.notices]

/-- **Texts that are neither blank nor integers are noticed, and no others are.** -/
theorem ignoredValue_mem_notices_iff {provider : Provider} {r : Request} {s : RuleSettings}
    (hs : (resolve provider r).settings = .ok s) {raw key : String} {default : Int} :
    Notice.ignoredValue raw key default ∈ (resolve provider r).notices ↔
      ∃ name, (name, default) ∈ r.defaults ∧ key = optionKey r.ruleId name ∧
        provider r.scope key = .text raw ∧ isIgnored raw = true := by
  obtain ⟨-, -, -, -, hthresholds⟩ := settings_resolveWith_eq_ok_iff.mp hs
  -- lookups for exclusions come first, and nothing is ignored there
  have hnotices := mem_resolveThresholds_notices (resolveThresholds_eq_ok_iff.mpr hthresholds)
  simp only [resolve, resolveWith, List.mem_append, ignoredValue_not_mem_notices, false_or,
    hnotices, ignoredValue_mem_thresholdNotices_iff]
  constructor
  · rintro ⟨d, hd, rfl, rfl, hraw, hignored⟩
    exact ⟨d.1.1, mem_normal_defaults.mp (List.fst_mem_of_mem_zipIdx hd), rfl, hraw, hignored⟩
  · rintro ⟨name, hmem, rfl, hraw, hignored⟩
    obtain ⟨i, hi⟩ := List.getElem?_of_mem (mem_normal_defaults.mpr hmem)
    refine ⟨((name, default), 3 + i), ?_, rfl, rfl, hraw, hignored⟩
    exact List.mem_zipIdx_iff_le_and_getElem?_sub.mpr (by simpa using hi)

/-- A resolver notices what is noticed when the request is resolved afresh, unless it keeps settings
for the request. -/
theorem notices_resolve (resolver : Resolver) (provider : Provider) (r : Request) :
    (resolver.resolve provider r).1.notices =
      if (resolver.find? r).isSome then [] else (resolve provider r).notices := by
  unfold Resolver.resolve
  cases hfind : resolver.find? r with
  | some kept => rfl
  | none =>
      cases hs : (resolve provider r).settings with
      | error fault => simp only [hs, Option.isSome_none, Bool.false_eq_true, if_false]
      | ok s => simp only [hs, Option.isSome_none, Bool.false_eq_true, if_false]

/-! ## Whole requests -/

/-- Every text that is found for a threshold of the request can be read. -/
def Request.IsReadable (r : Request) (provider : Provider) : Prop :=
  ∀ d ∈ r.defaults, ∀ raw, provider r.scope (optionKey r.ruleId d.1) = .text raw →
    Number.IsReadable raw.toList

theorem Request.IsReadable.exists_settings {r : Request} {provider : Provider}
    (h : r.IsReadable provider) : ∃ s, (resolve provider r).settings = .ok s :=
  exists_settings_resolve_iff.mpr fun d hd text htext _ => h d hd text htext

theorem provider_eq_text_iff {o : Options} {scope key text : String} :
    o.provider scope key = .text text ↔ o.lookup scope key = some text := by
  unfold Options.provider
  cases o.lookup scope key <;> simp

section Number

variable {shared sections : Value} {o : Options} {r : Request} {name : String} {n : Int}
  (ho : Options.ofValues shared sections = .ok o)
  (hcounts : Counts shared (sectionsOf sections) r.scope (optionKey r.ruleId name) (.int n))

include ho hcounts

/-- A number is looked up as its digits. -/
theorem lookup_of_int : o.lookup r.scope (optionKey r.ruleId name) = some (toString n) := by
  rw [lookup_ofValues ho, effectiveValue?_eq_some_iff.mpr hcounts]
  rfl

theorem isReadable_of_int (hn : isWritable n = true)
    (hothers : Request.IsReadable { r with defaults := r.defaults.filter (·.1 != name) }
      o.provider) : r.IsReadable o.provider := by
  intro d hd raw hraw
  by_cases hname : d.1 = name
  · rw [hname, provider_eq_text_iff, lookup_of_int ho hcounts] at hraw
    cases hraw
    exact isReadable_toString hn
  · exact hothers d (List.mem_filter.mpr ⟨hd, by simpa using hname⟩) raw hraw

theorem threshold_of_int (hn : isWritable n = true) {s : RuleSettings}
    (hs : (resolve o.provider r).settings = .ok s)
    (hname : ∃ default, (name, default) ∈ r.defaults) : s.threshold name = .ok n := by
  obtain ⟨default, hdefault⟩ := hname
  obtain ⟨value, hvalue⟩ := exists_threshold hs hdefault
  obtain ⟨default', -, -, hread⟩ := exists_readThreshold_of_threshold hs hvalue
  rw [text?_provider, lookup_of_int ho hcounts,
    readThreshold_of_denotes (denotes_toString n) (isReadable_toString hn)] at hread
  obtain rfl := Except.ok.inj hread
  exact hvalue

theorem ignoredValue_not_mem_of_int {s : RuleSettings}
    (hs : (resolve o.provider r).settings = .ok s) (raw : String) (default : Int) :
    Notice.ignoredValue raw (optionKey r.ruleId name) default ∉ (resolve o.provider r).notices := by
  intro hmem
  obtain ⟨-, -, -, hraw, hignored⟩ := (ignoredValue_mem_notices_iff hs).mp hmem
  rw [provider_eq_text_iff, lookup_of_int ho hcounts] at hraw
  cases hraw
  exact (isIgnored_iff.mp hignored).2 n (denotes_toString n)

end Number

/-- **Thresholds are read exactly.** A readable text sets a threshold to the integer that it
denotes, and leaves it at the default if it denotes none. A request whose texts are readable is
settled, and of the texts that are found for its thresholds exactly those are noticed that are
neither blank nor an integer. So a number in the options that is not too long to be written is the
threshold, and it is not noticed. -/
theorem thresholds_are_read_exactly :
    (∀ (default : Int) (raw : String), IsReadable raw.toList →
      (∀ n, Denotes raw.toList n → readThreshold (some raw) default = .ok n) ∧
      ((∀ n, ¬Denotes raw.toList n) → readThreshold (some raw) default = .ok default)) ∧
    (∀ (resolver : Resolver) (provider : Provider) (r : Request), resolver.find? r = none →
      r.IsReadable provider →
      (∃ s, (resolver.resolve provider r).1.settings = .ok s) ∧
      ∀ raw key default,
        Notice.ignoredValue raw key default ∈ (resolver.resolve provider r).1.notices ↔
          ∃ name, (name, default) ∈ r.defaults ∧ key = optionKey r.ruleId name ∧
            provider r.scope key = .text raw ∧
            (∃ c ∈ raw.toList, isBlank c = false) ∧ ∀ n, ¬Denotes raw.toList n) ∧
    ∀ (shared sections : Value) (o : Options), Options.ofValues shared sections = .ok o →
      ∀ (resolver : Resolver) (r : Request) (name : String) (n : Int),
        resolver.Sound o.provider →
        (∃ default, (name, default) ∈ r.defaults) →
        Request.IsReadable { r with defaults := r.defaults.filter (·.1 != name) } o.provider →
        Counts shared (sectionsOf sections) r.scope (optionKey r.ruleId name) (.int n) →
        isWritable n = true →
        (∃ s, (resolver.resolve o.provider r).1.settings = .ok s ∧ s.threshold name = .ok n) ∧
        ∀ raw default, Notice.ignoredValue raw (optionKey r.ruleId name) default ∉
          (resolver.resolve o.provider r).1.notices := by
  refine ⟨fun default raw hreadable => ⟨fun n hn => ?_, fun hno => ?_⟩,
    fun resolver provider r hfind hreadable => ?_,
    fun shared sections o ho resolver r name n hsound hname hothers hcounts hn => ?_⟩
  · exact readThreshold_of_denotes hn hreadable default
  · exact readThreshold_of_not_denotes hno default
  · obtain ⟨s, hs⟩ := hreadable.exists_settings
    refine ⟨exists_resolver_settings_iff.mpr (Or.inr ⟨s, hs⟩), fun raw key default => ?_⟩
    rw [notices_resolve, hfind]
    simp only [← isIgnored_iff]
    exact ignoredValue_mem_notices_iff hs
  · obtain ⟨s, hs⟩ := (isReadable_of_int ho hcounts hn hothers).exists_settings
    refine ⟨⟨s, (settings_resolve hsound r).trans hs, threshold_of_int ho hcounts hn hs hname⟩,
      fun raw default => ?_⟩
    rw [notices_resolve]
    split
    · exact List.not_mem_nil
    · exact ignoredValue_not_mem_of_int ho hcounts hs raw default

/-- A request for the settings of the rule on complexity. -/
def complexityRequest : Request :=
  ⟨"SEAM020", "src/App.cs", [("cyclomatic_complexity_threshold", 25)]⟩

/-- Digits of another script set a threshold, a word is noticed, and a number is what it is. -/
theorem thresholds_are_read_exactly_scripts :
    readThreshold (some "\u3000-\u0663\u0660\n") 25 = .ok (-30) ∧
    Notice.ignoredValue "many" (optionKey "SEAM020" "cyclomatic_complexity_threshold") 25 ∈
      (Resolver.resolve {} (fun _ _ => .text "many") complexityRequest).1.notices ∧
    ∃ o, Options.ofValues (.object
        [field (optionKey "SEAM020" "cyclomatic_complexity_threshold") (.int 30)]) .null = .ok o ∧
      ∃ s, (Resolver.resolve {} o.provider complexityRequest).1.settings = .ok s ∧
        s.threshold "cyclomatic_complexity_threshold" = .ok 30 := by
  obtain ⟨htexts, hnotices, hnumbers⟩ := thresholds_are_read_exactly
  refine ⟨?_, ?_, ?_⟩
  · refine (htexts 25 _ (isReadable_of_short (by decide) (by decide))).1 _ ?_
    refine ⟨['\u3000'], ['-'], ['\u0663', '\u0660'], ['\n'], [3, 0], ?_, ?_, rfl⟩
    · exact ⟨rfl, List.forall_mem_singleton.mpr (by decide), Or.inr (Or.inr rfl), by simp,
        List.forall_mem_cons.mpr ⟨by decide, List.forall_mem_singleton.mpr (by decide)⟩,
        List.forall_mem_singleton.mpr (by decide)⟩
    · exact .cons ⟨by decide, 0x660, by decide, rfl⟩ (.cons ⟨by decide, 0x660, by decide, rfl⟩ .nil)
  · have hreadable : complexityRequest.IsReadable fun _ _ => .text "many" := by
      intro d _ raw hraw
      cases hraw
      exact isReadable_of_short (by decide) (by decide)
    have hno : ¬∃ n, Denotes "many".toList n := by
      rw [exists_denotes_iff]
      decide
    exact ((hnotices {} _ _ rfl hreadable).2 _ _ _).mpr
      ⟨_, List.mem_singleton.mpr rfl, rfl, rfl, ⟨'m', by decide, by decide⟩, not_exists.mp hno⟩
  · obtain ⟨o, ho⟩ : ∃ o, Options.ofValues (.object
        [field (optionKey "SEAM020" "cyclomatic_complexity_threshold") (.int 30)]) .null = .ok o :=
      exists_ofValues_single _ (isWritable_of_small (by decide))
    refine ⟨o, ho, (hnumbers _ _ o ho {} complexityRequest _ 30 (sound_empty _)
      ⟨25, List.mem_singleton.mpr rfl⟩ ?_ ?_ (isWritable_of_small (by decide))).1⟩
    · intro d hd
      simp [complexityRequest] at hd
    · exact effectiveValue?_eq_some_iff.mp rfl

end SeamLint.Settings
