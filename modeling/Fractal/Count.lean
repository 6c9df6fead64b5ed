/-!
Counts that stop at the largest 64-bit number instead of growing past it.

A count is a machine word. Main statements: sums and products of counts are those of the numbers,
cut off once at the largest count, so cutting off early changes no clamped result.
-/

namespace Fractal

/-- A natural number of at most 64 bits. -/
structure Count where
  /-- The number as a machine word. -/
  word : UInt64
  deriving DecidableEq

namespace Count

/-- The number that a count stands for. -/
def toNat (a : Count) : Nat := a.word.toNat

/-- The largest number that is a count. -/
def top : Nat := 0xffffffffffffffff

/-- The word of the largest count, all bits set. -/
def full : UInt64 := 0xffffffffffffffff

/-- All bits set stand for the largest number. -/
theorem toNat_full : full.toNat = top := rfl

/-- The count nearest to a natural number: the number itself, or the largest count. -/
def clamp (n : Nat) : Count := { word := UInt64.ofNat (min n top) }

/-- A literal is the count nearest to the number it names. -/
instance (n : Nat) : OfNat Count n := ⟨clamp n⟩

/-- A count prints as the number it is. -/
instance : Repr Count := ⟨fun count _ => repr count.toNat⟩

/-- A sum past the largest count is the largest count. -/
instance : Add Count where
  add a b :=
    -- A word that wraps around ends below both parts.
    if a.word + b.word < a.word then { word := full } else { word := a.word + b.word }

/-- A product past the largest count is the largest count. -/
instance : Mul Count where
  mul a b :=
    -- A product fits when one factor goes into the largest word as often as the other says.
    if b.word = 0 ∨ a.word ≤ full / b.word then { word := a.word * b.word } else { word := full }

/-- Counts are ordered as numbers. -/
instance : LE Count := ⟨fun a b => a.toNat ≤ b.toNat⟩

/-- One count is below another when its number is. -/
instance : LT Count := ⟨fun a b => a.toNat < b.toNat⟩

/-- Whether one count is at most another is decided on the numbers. -/
instance (a b : Count) : Decidable (a ≤ b) := Nat.decLe a.toNat b.toNat

/-- Whether one count is below another is decided on the numbers. -/
instance (a b : Count) : Decidable (a < b) := Nat.decLt a.toNat b.toNat

/-- Two counts of one number are one count. -/
@[ext] theorem ext {a b : Count} (same : a.toNat = b.toNat) : a = b := by
  cases a; cases b
  exact congrArg mk (UInt64.toNat_inj.1 same)

/-- No count exceeds the largest one. -/
theorem toNat_le_top (a : Count) : a.toNat ≤ top :=
  Nat.le_sub_one_of_lt a.word.toNat_lt

/-- Clamping cuts a number off at the largest count. -/
@[simp] theorem toNat_clamp (n : Nat) : (clamp n).toNat = min n top := by
  rw [toNat, clamp, UInt64.toNat_ofNat_of_lt']
  exact Nat.lt_of_le_of_lt (Nat.min_le_right n top) (by decide)

/-- Clamping keeps the order of numbers. -/
theorem clamp_mono {m n : Nat} (le : m ≤ n) : clamp m ≤ clamp n := by
  change (clamp m).toNat ≤ (clamp n).toNat
  rw [toNat_clamp, toNat_clamp]
  omega

/-- The number of a count clamps to that count. -/
@[simp] theorem clamp_toNat (a : Count) : clamp a.toNat = a :=
  ext ((toNat_clamp _).trans (Nat.min_eq_left a.toNat_le_top))

/-- A sum of counts is the sum of the numbers, cut off at the largest count. -/
@[simp] theorem toNat_add (a b : Count) : (a + b).toNat = min (a.toNat + b.toNat) top := by
  have below := a.word.toNat_lt
  have below' := b.word.toNat_lt
  change (if a.word + b.word < a.word then _ else _ : Count).toNat = _
  split
  all_goals
    rename_i wraps
    rw [UInt64.lt_iff_toNat_lt, UInt64.toNat_add] at wraps
    simp only [toNat, toNat_full, top, UInt64.toNat_add]
    omega

/-- A product of counts is the product of the numbers, cut off at the largest count. -/
@[simp] theorem toNat_mul (a b : Count) : (a * b).toNat = min (a.toNat * b.toNat) top := by
  change (if b.word = 0 ∨ a.word ≤ full / b.word then _ else _ : Count).toNat = _
  -- The test says that the product of the numbers is at most the largest count.
  have fits : (b.word = 0 ∨ a.word ≤ full / b.word) ↔ a.toNat * b.toNat ≤ top := by
    rw [UInt64.le_iff_toNat_le, UInt64.toNat_div, toNat_full, ← UInt64.toNat_inj]
    rcases Nat.eq_zero_or_pos b.word.toNat with none | some
    · simp [toNat, none]
    · rw [Nat.le_div_iff_mul_le some]
      simp only [toNat, UInt64.toNat_zero]
      omega
  split
  · rename_i small
    have bound := fits.1 small
    rw [Nat.min_eq_left bound]
    simp only [toNat, top] at bound ⊢
    rw [UInt64.toNat_mul, Nat.mod_eq_of_lt (by omega)]
  · rename_i large
    rw [Nat.min_eq_right (Nat.le_of_not_le (mt fits.2 large))]
    rfl

/-- Clamping the terms of a sum early changes nothing once the sum is clamped. -/
theorem clamp_add (m n : Nat) : clamp m + clamp n = clamp (m + n) := by
  apply ext
  simp only [toNat_add, toNat_clamp]
  omega

/-- Clamping the factors of a product early changes nothing once the product is clamped. -/
theorem clamp_mul (m n : Nat) : clamp m * clamp n = clamp (m * n) := by
  apply ext
  simp only [toNat_mul, toNat_clamp]
  -- A factor of zero absorbs the other one, cut off or not.
  rcases Nat.eq_zero_or_pos m with rfl | hm
  · simp
  rcases Nat.eq_zero_or_pos n with rfl | hn
  · simp
  -- A factor that is cut off already makes the product too large, since the other is positive.
  rcases Nat.le_total m top with small | large
  · rcases Nat.le_total n top with small' | large'
    · rw [Nat.min_eq_left small, Nat.min_eq_left small']
    · rw [Nat.min_eq_right large', Nat.min_eq_left small,
        Nat.min_eq_right (Nat.le_mul_of_pos_left top hm),
        Nat.min_eq_right (Nat.le_trans large' (Nat.le_mul_of_pos_left n hm))]
  · have positive : 0 < min n top := Nat.lt_min.2 ⟨hn, by decide⟩
    rw [Nat.min_eq_right large, Nat.min_eq_right (Nat.le_mul_of_pos_right top positive),
      Nat.min_eq_right (Nat.le_trans large (Nat.le_mul_of_pos_right m hn))]

end Count

end Fractal
