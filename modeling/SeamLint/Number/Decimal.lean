import SeamLint.Text.Digit

set_option autoImplicit false

/-! # Reading decimals

A decimal is given by its digits and a power of ten. It is read as the nearest double.
-/

namespace SeamLint.Number

/-- The decimal `digits * 10 ^ exponent` as a double. Exponents far outside the range of
doubles are settled without computing the power. -/
def realOf (negative : Bool) (digits : List Char) (exponent : Int) : Float :=
  let significant := digits.dropWhile (· == '0')
  let reach := exponent + significant.length
  let size : Float :=
    if significant.isEmpty then 0.0
    else if reach > 400 then 1.0 / 0.0
    else if reach < -400 then 0.0
    else
      Float.ofScientific (Text.digitsValue significant) (exponent < 0) exponent.natAbs
  if negative then -size else size

end SeamLint.Number
