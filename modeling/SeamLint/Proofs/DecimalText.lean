import SeamLint.Number.Integer

set_option autoImplicit false

/-! # Integers as they are written

An integer is written as its decimal digits, after a minus sign if it is negative. So different
integers are written differently (`toString_injective`).
-/

namespace SeamLint.Number

theorem toList_toString (n : Int) :
    (toString n).toList = (if n < 0 then ['-'] else []) ++ Nat.toDigits 10 n.natAbs := by
  rw [Int.toString_eq_repr, Int.repr_eq_if]
  by_cases hn : 0 ≤ n
  · rw [if_pos hn, if_neg (by omega), Nat.toList_repr, List.nil_append]
    congr 1
    omega
  · rw [if_neg hn, if_pos (by omega), String.toList_append, Nat.toList_repr]
    congr 2
    omega

theorem isDigit_of_mem_toString {n : Int} {c : Char} (h : c ∈ (toString n).toList) :
    c = '-' ∨ c.isDigit = true := by
  rw [toList_toString, List.mem_append] at h
  rcases h with hsign | hdigit
  · left
    by_cases hn : n < 0
    · rw [if_pos hn] at hsign
      exact List.mem_singleton.mp hsign
    · rw [if_neg hn] at hsign
      cases hsign
  · right
    exact Nat.isDigit_of_mem_toDigits (by decide) (by decide) hdigit

theorem toString_injective {m n : Int} (h : toString m = toString n) : m = n := by
  have hlists := congrArg String.toList h
  rw [toList_toString, toList_toString] at hlists
  -- a digit is not a minus sign, so both texts have one or neither has
  have hminus (k : Int) : '-' ∉ Nat.toDigits 10 k.natAbs := fun hmem =>
    absurd (Nat.isDigit_of_mem_toDigits (by decide) (by decide) hmem) (by decide)
  have hsame (hdigits : Nat.toDigits 10 m.natAbs = Nat.toDigits 10 n.natAbs) :
      m.natAbs = n.natAbs := by
    rw [← Nat.ofDigitChars_ten_toDigits (n := m.natAbs), hdigits, Nat.ofDigitChars_ten_toDigits]
  by_cases hm : m < 0
  · by_cases hn : n < 0
    · rw [if_pos hm, if_pos hn] at hlists
      have habs := hsame (List.append_cancel_left hlists)
      omega
    · rw [if_pos hm, if_neg hn, List.nil_append] at hlists
      exact absurd (hlists ▸ List.mem_append_left _ (List.mem_singleton_self _)) (hminus n)
  · by_cases hn : n < 0
    · rw [if_neg hm, if_pos hn, List.nil_append] at hlists
      exact absurd (hlists ▸ List.mem_append_left _ (List.mem_singleton_self _)) (hminus m)
    · rw [if_neg hm, if_neg hn] at hlists
      have habs := hsame (List.append_cancel_left hlists)
      omega

end SeamLint.Number
