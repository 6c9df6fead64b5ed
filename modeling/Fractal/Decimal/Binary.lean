/-! The positive rational number that a finite double stands for. -/

namespace Fractal

/-- A positive value `significand * 2 ^ exponent`, as a double stores it. -/
structure Binary where
  /-- Whole multiple of the last place that the format keeps. -/
  significand : Nat
  /-- Power of two that the last place stands for. -/
  exponent : Int
  deriving DecidableEq

namespace Binary

/-- The significand that the leading bit of a normal double adds. -/
def hidden : Nat := 0x10000000000000

/-- The place of the last bit of every subnormal double. -/
def lowest : Int := -1074

/-- The magnitude held by the low 63 bits of a finite double. -/
def ofBits (bits : Nat) : Binary :=
  let fraction := bits % hidden
  -- The eleven bits above the fraction hold the biased exponent.
  match bits / hidden % 0x800 with
  -- A zero field marks a subnormal number, which has no hidden bit.
  | 0 => { significand := fraction, exponent := lowest }
  | field + 1 => { significand := hidden + fraction, exponent := lowest + field }

/-- The magnitude of a finite double, its sign dropped. -/
def ofFloat (x : Float) : Binary :=
  ofBits x.toBits.toNat

/-- Below a power of two the doubles lie twice as close, down to the subnormal numbers. -/
def narrowBelow (b : Binary) : Bool :=
  b.significand == hidden && lowest < b.exponent

end Binary

end Fractal
