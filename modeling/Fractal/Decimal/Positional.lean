import Fractal.Decimal.Shortest

/-! The text of a number in positional notation, never with an exponent. -/

namespace Fractal

namespace Decimal

/-- The decimal digits of a natural number, most significant first. -/
def digitsOf (n : Nat) : List Char :=
  Nat.toDigits 10 n

/-- Zeros put in front until the text has at least `width` characters. -/
def padded (width : Nat) (text : List Char) : List Char :=
  List.replicate (width - text.length) '0' ++ text

/-- A decimal number written out in full: no exponent, and a point only before a fraction. -/
def positional (d : Decimal) : List Char :=
  -- Digits past the last place are zeros.
  if 0 ≤ d.exponent then digitsOf d.digits ++ List.replicate d.exponent.toNat '0'
  else
    let places := (-d.exponent).toNat
    -- At least one digit stands before the point.
    let text := padded (places + 1) (digitsOf d.digits)
    text.take (text.length - places) ++ '.' :: text.drop (text.length - places)

end Decimal

/-- The text of a double: the fewest digits that read back, written positionally. -/
def decimalText (x : Float) : String :=
  -- A value that is no number has no sign.
  if x.isNaN then "NaN"
  else
    -- The topmost bit of a number is its sign.
    let sign := if x.toBits < 0x8000000000000000 then "" else "-"
    let magnitude :=
      if x.isInf then "inf"
      else if x == 0 then "0"
      else String.ofList (Decimal.shortest (Binary.ofFloat x)).positional
    sign ++ magnitude

end Fractal
