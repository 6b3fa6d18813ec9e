import SeamLint.Number.Binary

set_option autoImplicit false

/-! # The shortest decimal of a binary number

Of all decimals that are read back as a given binary number, `shortest` takes the one with
the fewest digits, and of those the nearest. It tries grids of decimals from coarse to
fine: on each grid only the two points next to the number can lie in the interval of reals
that round to it, so the first grid with a hit has the fewest digits.
-/

namespace SeamLint.Number

/-- The decimal `digits * 10 ^ exponent`. -/
structure Decimal where
  digits : Nat
  exponent : Int
deriving DecidableEq, Repr

/-- Compares `a * 10 ^ k` with `b * 2 ^ e`. -/
def compareScaled (a : Nat) (k : Int) (b : Nat) (e : Int) : Ordering :=
  compare (a * powUp 10 k * powDown 2 e) (b * powUp 2 e * powDown 10 k)

/-- The point `d * 10 ^ k` is read back as `m * 2 ^ q`: it lies between the middles towards
the two neighbours, which themselves count if `m` is even. -/
def readsBack (m : Nat) (q : Int) (narrow : Bool) (d : Nat) (k : Int) : Bool :=
  let low := 4 * m - (if narrow then 1 else 2)
  let high := 4 * m + 2
  let aboveLow := compareScaled d k low (q - 2)
  let belowHigh := compareScaled d k high (q - 2)
  let even := m % 2 == 0
  (aboveLow == .gt || (even && aboveLow == .eq)) &&
    (belowHigh == .lt || (even && belowHigh == .eq))

/-- The hit on the grid of multiples of `10 ^ k`, if there is one: of two hits the nearer,
of two equally near ones the even. -/
def gridHit? (m : Nat) (q : Int) (narrow : Bool) (k : Int) : Option Nat :=
  let lower := m * powUp 2 q * powDown 10 k / (powDown 2 q * powUp 10 k)
  let upper := lower + 1
  let lowerHits := lower != 0 && readsBack m q narrow lower k
  let upperHits := readsBack m q narrow upper k
  if lowerHits && upperHits then
    match compareScaled (lower + upper) k (2 * m) q with
    | .gt => some lower
    | .lt => some upper
    | .eq => some (if lower % 2 == 0 then lower else upper)
  else if lowerHits then some lower
  else if upperHits then some upper
  else none

/-- The first hit on the grids `10 ^ k`, `10 ^ (k - 1)`, and so on, `steps` of them. -/
def firstHit (m : Nat) (q : Int) (narrow : Bool) : Nat → Int → Decimal
  | 0, k => ⟨0, k⟩
  | steps + 1, k =>
      match gridHit? m q narrow k with
      | some d => ⟨d, k⟩
      | none => firstHit m q narrow steps (k - 1)

/-- The coarsest grid on which a double can lie. -/
def coarsestGrid : Int := 309

/-- The number of grids between the coarsest and the finest that a double needs. -/
def gridCount : Nat := 660

/-- The shortest decimal that is read back as the positive number `m * 2 ^ q`. -/
def shortest (m : Nat) (q : Int) (narrow : Bool) : Decimal :=
  firstHit m q narrow gridCount coarsestGrid

end SeamLint.Number
