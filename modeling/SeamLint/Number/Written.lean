import SeamLint.Number.Shortest

set_option autoImplicit false

/-! # How a real number is written

A double is written with the digits of its shortest decimal: with a decimal point if its
leading digit stands between `firstFixed` and `lastFixed`, and with an exponent otherwise.
A written real is never mistaken for an integer: it keeps a fraction or an exponent.
-/

namespace SeamLint.Number

/-- The least power of ten of a leading digit that is written with a decimal point only. -/
def firstFixed : Int := -4

/-- The power of ten of a leading digit from which on an exponent is written. -/
def lastFixed : Int := 16

/-- Digits with a decimal point after `point` of them. -/
def fixedText (digits : List Char) (point : Int) : List Char :=
  if point ≤ 0 then
    '0' :: '.' :: (List.replicate (-point).toNat '0' ++ digits)
  else if digits.length ≤ point.toNat then
    digits ++ List.replicate (point.toNat - digits.length) '0' ++ ['.', '0']
  else digits.take point.toNat ++ '.' :: digits.drop point.toNat

/-- The sign and at least two digits of an exponent. -/
def exponentText (e : Int) : List Char :=
  let digits := Nat.toDigits 10 e.natAbs
  (if e < 0 then '-' else '+') :: (List.replicate (2 - digits.length) '0' ++ digits)

/-- Digits with the point after the first, and the power of ten `e` of that first digit. -/
def scientificText (digits : List Char) (e : Int) : List Char :=
  let mantissa :=
    match digits with
    | first :: second :: rest => first :: '.' :: second :: rest
    | short => short
  mantissa ++ 'e' :: exponentText e

/-- A decimal in the form that its size asks for. -/
def Decimal.text (d : Decimal) : List Char :=
  let digits := Nat.toDigits 10 d.digits
  let point := (digits.length : Int) + d.exponent
  if firstFixed < point && point ≤ lastFixed then fixedText digits point
  else scientificText digits (point - 1)

/-- The text of a double. -/
def Binary.text : Binary → String
  | .nan => "nan"
  | .infinite negative => if negative then "-inf" else "inf"
  | .finite negative m q narrow =>
      let size := if m == 0 then ['0', '.', '0'] else (shortest m q narrow).text
      String.ofList (if negative then '-' :: size else size)

/-- The text of a real number. -/
def realText (x : Float) : String := (Binary.ofFloat x).text

end SeamLint.Number
