set_option autoImplicit false

/-! # Double-precision numbers taken apart

A finite double is a sign, a mantissa and a power of two. All exact work on doubles (their
shortest decimal, their whole part, comparison with integers) is done on these parts, in
integers.
-/

namespace SeamLint.Number

/-- A double-precision number as its encoding gives it. A finite number is
`mantissa * 2 ^ exponent` up to its sign; `narrow` tells that the gap to the next smaller
number is only half of the gap to the next larger one. -/
inductive Binary where
  | nan
  | infinite (negative : Bool)
  | finite (negative : Bool) (mantissa : Nat) (exponent : Int) (narrow : Bool)
deriving DecidableEq, Repr

/-- The parts of a double. -/
def Binary.ofFloat (x : Float) : Binary :=
  let bits : Nat := x.toBits.toNat
  let negative := bits / Nat.pow 2 63 == 1
  let scale : Nat := bits / Nat.pow 2 52 % Nat.pow 2 11
  let fraction : Nat := bits % Nat.pow 2 52
  if scale == 2047 then
    if fraction == 0 then .infinite negative else .nan
  else if scale == 0 then .finite negative fraction (-1074) false
  else
    .finite negative (fraction + Nat.pow 2 52) ((scale : Int) - 1075)
      (fraction == 0 && scale > 1)

/-- `2 ^ e` for `e ≥ 0`, and `1` otherwise. -/
def powUp (base : Nat) (e : Int) : Nat := Nat.pow base e.toNat

/-- `2 ^ (-e)` for `e ≤ 0`, and `1` otherwise. -/
def powDown (base : Nat) (e : Int) : Nat := Nat.pow base (-e).toNat

/-- The number with its fraction cut off; `none` for what is not finite. -/
def Binary.whole? : Binary → Option Int
  | .finite negative m e _ =>
      let size := m * powUp 2 e / powDown 2 e
      some (if negative then -(size : Int) else size)
  | _ => none

/-- The number if it is an integer. -/
def Binary.integer? (x : Binary) : Option Int :=
  match x with
  | .finite _ m e _ => if m * powUp 2 e % powDown 2 e == 0 then x.whole? else none
  | _ => none

/-- The number is zero, with either sign. -/
def Binary.isZero : Binary → Bool
  | .finite _ m _ _ => m == 0
  | _ => false

end SeamLint.Number
