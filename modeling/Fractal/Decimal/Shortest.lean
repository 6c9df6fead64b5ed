import Fractal.Decimal.Binary

/-!
The shortest decimal number that reads back as a given double.

A decimal number reads back as the double whose rounding range holds it. The coarsest grid of
powers of ten that has a point in the range gives the fewest digits, and the point of that grid
nearest to the double is the answer. All of it is exact arithmetic on natural numbers.
-/

namespace Fractal

/-- A positive decimal number `digits * 10 ^ exponent`. -/
structure Decimal where
  /-- The digits, read as one natural number. -/
  digits : Nat
  /-- Power of ten that the last digit stands for. -/
  exponent : Int
  deriving DecidableEq

/-- The reals that round to one double, as multiples of `1 / unit`. -/
structure RoundingRange where
  /-- The end below, halfway to the next smaller double. -/
  low : Nat
  /-- The double itself. -/
  value : Nat
  /-- The end above, halfway to the next larger double. -/
  high : Nat
  /-- How many multiples make one. -/
  unit : Nat
  /-- Whether the two ends round to the double too. -/
  closed : Bool
  deriving DecidableEq

namespace RoundingRange

/-- The range of a double: half a place on each side, a quarter below a power of two. -/
def ofBinary (b : Binary) : RoundingRange :=
  -- Quarters of the last place keep all three numbers whole.
  let place := b.exponent - 2
  let up := Nat.pow 2 place.toNat
  { low := (4 * b.significand - if b.narrowBelow then 1 else 2) * up
    value := 4 * b.significand * up
    high := (4 * b.significand + 2) * up
    unit := Nat.pow 2 (-place).toNat
    -- A half rounds to the even significand.
    closed := b.significand % 2 == 0 }

/-- The same range measured in steps of `10 ^ k`. -/
def scale (r : RoundingRange) (k : Int) : RoundingRange :=
  let shrink := Nat.pow 10 (-k).toNat
  { low := r.low * shrink
    value := r.value * shrink
    high := r.high * shrink
    unit := r.unit * Nat.pow 10 k.toNat
    closed := r.closed }

/-- Whether the whole number `n` lies in the range. -/
def holds (r : RoundingRange) (n : Nat) : Bool :=
  let point := n * r.unit
  if r.closed then r.low ≤ point && point ≤ r.high else r.low < point && point < r.high

/-- The whole number nearest to the double, the larger one of two equally near. -/
def nearest (r : RoundingRange) : Nat :=
  (2 * r.value + r.unit) / (2 * r.unit)

/-- The nearest whole number in the range, if the range holds any. -/
def whole? (r : RoundingRange) : Option Nat :=
  -- The nearest one may lie outside on the side where the range is narrow.
  [r.nearest, r.value / r.unit, r.value / r.unit + 1].find? r.holds

/-- The answer on the coarsest grid from `10 ^ (bottom + room)` down to `10 ^ bottom`. -/
def coarsest (r : RoundingRange) (bottom : Int) : Nat → Decimal
  -- The finest grid holds the double itself.
  | 0 => { digits := (r.scale bottom).nearest, exponent := bottom }
  | room + 1 =>
    let exponent := bottom + (room + 1 : Nat)
    match (r.scale exponent).whole? with
    | some digits => { digits, exponent }
    | none => coarsest r bottom room

end RoundingRange

namespace Decimal

/-- Every finite double is below ten to this power. -/
def ceiling : Nat := 309

/-- The shortest decimal number that reads back as `b`, and of those the nearest one. -/
def shortest (b : Binary) : Decimal :=
  -- Quarters of the last place are whole multiples of this power of ten.
  let below := (2 - b.exponent).toNat
  (RoundingRange.ofBinary b).coarsest (-below) (below + ceiling)

end Decimal

end Fractal
