import Fractal.Grammar.Basic
import Mathlib

/-!
When two doubles are one.

A comparison looks at signs, significands and exponents, which the fields of the bits hold. Main
statement: among the positive finite numbers, being equal as numbers is being the same double.
-/

namespace Fractal

namespace Double

open Float.Model Float.Model.UnpackedFloat

/-- The fields of a double are runs of digits of its bits. -/
theorem toNat_fields (bits : BitVec Format.binary64.numBits) :
    (unpackSign bits).toNat = bits.toNat / 2 ^ 63 ∧
      (unpackExponent bits).toNat = bits.toNat / 2 ^ 52 % 2 ^ 11 ∧
      (unpackMantissa bits).toNat = bits.toNat % 2 ^ 52 := by
  have small : bits.toNat < 2 ^ 64 := bits.isLt
  have sign : (unpackSign bits).toNat = bits.toNat >>> 63 % 2 ^ 1 := rfl
  have exponent : (unpackExponent bits).toNat = bits.toNat >>> 52 % 2 ^ 11 := rfl
  have mantissa : (unpackMantissa bits).toNat = bits.toNat >>> 0 % 2 ^ 52 := rfl
  -- Each field is cut out by a shift, which is a division.
  simp only [Nat.shiftRight_eq_div_pow] at sign exponent mantissa
  omega

/-- Two doubles with the same fields have the same bits. -/
theorem eq_of_fields {a b : BitVec Format.binary64.numBits} (sign : unpackSign a = unpackSign b)
    (exponent : unpackExponent a = unpackExponent b)
    (mantissa : unpackMantissa a = unpackMantissa b) : a = b := by
  obtain ⟨signA, exponentA, mantissaA⟩ := toNat_fields a
  obtain ⟨signB, exponentB, mantissaB⟩ := toNat_fields b
  rw [sign] at signA
  rw [exponent] at exponentA
  rw [mantissa] at mantissaA
  -- The three fields are the digits of the pattern, so equal ones make equal patterns.
  exact BitVec.eq_of_toNat_eq (by omega)

/-- The bit of a sign tells which sign it is. -/
theorem eq_of_ofBitVec {a b : BitVec 1} (same : Sign.ofBitVec a = Sign.ofBitVec b) : a = b := by
  have small := a.isLt
  have small' := b.isLt
  rw [Sign.ofBitVec, Sign.ofBitVec] at same
  simp only [← BitVec.toNat_inj, BitVec.toNat_ofNat] at same ⊢
  split_ifs at same with zero zero' zero'
  -- A bit that is not zero is one.
  · omega
  · omega

/-- The fields of a finite double other than zero follow from what it is unpacked to. -/
theorem fields_of_unpack {bits : BitVec Format.binary64.numBits} {sign : Sign} {significand : Nat}
    {exponent : Int} {some : 0 < significand}
    (unpacked : UnpackedFloat.unpack .binary64 bits = .finite sign significand exponent some) :
    Sign.ofBitVec (unpackSign bits) = sign ∧
      (unpackExponent bits).toNat =
        (if significand < 2 ^ 52 then 0 else (exponent + 1075).toNat) ∧
      (unpackMantissa bits).toNat = significand % 2 ^ 52 := by
  have small : (unpackMantissa bits).toNat < 2 ^ 52 := (unpackMantissa bits).isLt
  have bias : Format.binary64.exponentBias = 1023 := by decide
  rw [UnpackedFloat.unpack] at unpacked
  split at unpacked
  -- Where all digits of the exponent are set, nothing finite is unpacked.
  · split at unpacked
    · cases unpacked
    · cases unpacked
  split at unpacked
  · rename_i subnormal
    split at unpacked
    · cases unpacked
    -- Where none is set, the mantissa is the whole significand.
    · cases unpacked
      refine ⟨rfl, ?_, (Nat.mod_eq_of_lt small).symm⟩
      rw [if_pos small, subnormal]
      rfl
  -- Everywhere else the significand has one more digit in front.
  · cases unpacked
    have joined : (1#1 ++ unpackMantissa bits).toNat = 2 ^ 52 + (unpackMantissa bits).toNat := by
      rw [BitVec.toNat_append, Nat.shiftLeft_eq, Nat.mul_comm]
      exact (Nat.two_pow_add_eq_or_of_lt small 1).symm
    refine ⟨rfl, ?_, by omega⟩
    rw [joined, if_neg (by omega), bias]
    simp only
    omega

/-- What a finite double other than zero is unpacked to determines the double. -/
theorem eq_of_unpack {x y : Float} {sign : Sign} {significand : Nat} {exponent : Int}
    {some : 0 < significand}
    (left : x.toModel.unpack = .finite sign significand exponent some)
    (right : y.toModel.unpack = .finite sign significand exponent some) : x = y := by
  obtain ⟨signX, exponentX, mantissaX⟩ := fields_of_unpack left
  obtain ⟨signY, exponentY, mantissaY⟩ := fields_of_unpack right
  have bits := eq_of_fields (eq_of_ofBitVec (signX.trans signY.symm))
    (BitVec.eq_of_toNat_eq (exponentX.trans exponentY.symm))
    (BitVec.eq_of_toNat_eq (mantissaX.trans mantissaY.symm))
  -- The stored word determines the double, which has nothing else to it.
  have words : x.toModel.toBits = y.toModel.toBits := UInt64.toBitVec_inj.1 bits
  rcases x with ⟨⟨_, _⟩⟩
  rcases y with ⟨⟨_, _⟩⟩
  cases words
  rfl

end Double

namespace PositiveFinite

open Float.Model Float.Model.UnpackedFloat

variable {x y : Float}

/-- A positive finite number has a positive sign and a significand. -/
theorem exists_unpack (positive : PositiveFinite x) : ∃ significand exponent,
    ∃ some : 0 < significand, x.toModel.unpack = .finite .positive significand exponent some := by
  have real : x.toModel.unpack.isFinite = true := positive.1
  have above : (0 : Float).toModel.unpack.lt x.toModel.unpack = true :=
    of_decide_eq_true positive.2
  have zero : (0 : Float).toModel.unpack = .zero .positive := rfl
  rw [zero] at above
  -- Of the other kinds of numbers some are not finite, and the rest do not lie above zero.
  cases unpacked : x.toModel.unpack with
  | finite sign significand exponent some =>
    cases sign with
    | positive => exact ⟨significand, exponent, some, rfl⟩
    | negative => rw [unpacked] at above; cases above
  | zero sign => rw [unpacked] at above; cases above
  | infinity sign => rw [unpacked] at real; cases real
  | notANumber => rw [unpacked] at real; cases real

/-- Positive finite numbers compare equal exactly when they are the same double. -/
theorem beq_iff_eq (left : PositiveFinite x) (right : PositiveFinite y) :
    (x == y) = true ↔ x = y := by
  obtain ⟨significand, exponent, some, unpacked⟩ := left.exists_unpack
  obtain ⟨significand', exponent', some', unpacked'⟩ := right.exists_unpack
  -- Exponents are compared first, and significands where they agree.
  have compared : (x == y) = true ↔ exponent = exponent' ∧ significand = significand' := by
    change x.toModel.unpack.beq y.toModel.unpack = true ↔ _
    rw [unpacked, unpacked']
    simp [UnpackedFloat.beq, UnpackedFloat.compare, Ordering.then_eq_eq]
  rw [compared]
  -- Equal parts are packed into the same pattern, and one double has one unpacking.
  constructor
  · rintro ⟨rfl, rfl⟩
    exact Double.eq_of_unpack unpacked unpacked'
  · rintro rfl
    rw [unpacked] at unpacked'
    cases unpacked'
    exact ⟨rfl, rfl⟩

end PositiveFinite

end Fractal
