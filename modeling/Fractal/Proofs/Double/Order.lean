import Fractal.Plane.Point
import Mathlib

/-!
The order of the doubles that are numbers.

Infinities lie outside of all finite numbers, the zeros are one number, and all others are compared
by exponent and significand. Main statement: the comparisons of doubles are those of a linear
order, in which every number has its rank.
-/

namespace Fractal

namespace Double

open Float.Model Float.Model.UnpackedFloat

/-- The place of an unpacked number in the order of all: its class, and its place in the class. -/
def rank : UnpackedFloat → ℤ ×ₗ ℤ ×ₗ ℤ
  | .infinity .negative => toLex (-2, toLex (0, 0))
  | .finite .negative significand exponent _ => toLex (-1, toLex (-exponent, -significand))
  | .zero _ | .notANumber => toLex (0, toLex (0, 0))
  | .finite .positive significand exponent _ => toLex (1, toLex (exponent, significand))
  | .infinity .positive => toLex (2, toLex (0, 0))

/-- Signs compare as negative before positive. -/
theorem compare_sign :
    compare Sign.negative Sign.negative = .eq ∧ compare Sign.negative Sign.positive = .lt ∧
      compare Sign.positive Sign.negative = .gt ∧ compare Sign.positive Sign.positive = .eq :=
  ⟨rfl, rfl, rfl, rfl⟩

/-- Unpacked numbers compare as their ranks do. -/
theorem compare_eq_rank {a b : UnpackedFloat} (left : a.isNaN = false) (right : b.isNaN = false) :
    (a.compare b = some .lt ↔ rank a < rank b) ∧ (a.compare b = some .eq ↔ rank a = rank b) := by
  -- Forty-nine pairs of classes, of which most are told apart by the first coordinate.
  rcases a with ⟨_ | _⟩ | _ | ⟨_ | _⟩ | ⟨_ | _, significand, exponent, _⟩
  all_goals rcases b with ⟨_ | _⟩ | _ | ⟨_ | _⟩ | ⟨_ | _, significand', exponent', _⟩
  -- The classes decide, but for two finite numbers of one sign, where exponents come first.
  all_goals
    simp [UnpackedFloat.compare, UnpackedFloat.isNaN, rank, Prod.Lex.toLex_lt_toLex, compare_sign,
      Ordering.then_eq_lt, Ordering.then_eq_eq, Ordering.then_eq_gt, compare_lt_iff_lt,
      compare_gt_iff_gt] at left right ⊢

/-- With what is no number there is no comparison. -/
theorem compare_eq_none {a b : UnpackedFloat} (gap : a.isNaN = true ∨ b.isNaN = true) :
    a.compare b = none := by
  rcases gap with first | second
  -- The first is no number: the comparison looks at it before anything else.
  · cases a with
    | notANumber => rfl
    | _ => cases first
  -- The second is no number, whatever the first one is.
  · cases b with
    | notANumber => cases a <;> rfl
    | _ => cases second

/-- A double that is a number, finite or not. -/
def IsNumber (x : Float) : Prop := x.isNaN = false

/-- Whether a double is a number is decided by a look at its bits. -/
instance (x : Float) : Decidable (IsNumber x) :=
  inferInstanceAs (Decidable (x.isNaN = false))

/-- Doubles that are not both numbers are not compared. -/
theorem compare_eq_none_of_gap {x y : Float} (gap : ¬(IsNumber x ∧ IsNumber y)) :
    x.toModel.unpack.compare y.toModel.unpack = none := by
  rw [not_and_or, IsNumber, IsNumber, Bool.not_eq_false, Bool.not_eq_false] at gap
  exact compare_eq_none gap

/-- What is below something is a number, and that is one as well. -/
theorem isNumber_of_lt {x y : Float} (below : x < y) : IsNumber x ∧ IsNumber y := by
  -- Below is one outcome of the comparison, and a gap has no outcome.
  change decide ((x.toModel.unpack.compare y.toModel.unpack == some .lt) = true) = true at below
  by_contra gap
  rw [compare_eq_none_of_gap gap] at below
  exact absurd below (by decide)

/-- What is at most something is a number, and that is one as well. -/
theorem isNumber_of_le {x y : Float} (below : x ≤ y) : IsNumber x ∧ IsNumber y := by
  change decide ((x.toModel.unpack.compare y.toModel.unpack).any Ordering.isLE = true) = true
    at below
  -- Neither outcome that is at most equal is left where there is a gap.
  by_contra gap
  rw [compare_eq_none_of_gap gap] at below
  exact absurd below (by decide)

/-- The place of a number in the order of all. -/
def place (x : Float) : ℤ ×ₗ ℤ ×ₗ ℤ := rank x.toModel.unpack

namespace IsNumber

variable {x y : Float}

/-- Numbers are ordered strictly as their places are. -/
theorem lt_iff (left : IsNumber x) (right : IsNumber y) : x < y ↔ place x < place y := by
  rw [place, place, ← (compare_eq_rank left right).1]
  change decide ((x.toModel.unpack.compare y.toModel.unpack == some .lt) = true) = true ↔ _
  rw [decide_eq_true_iff, beq_iff_eq]

/-- Numbers are equal as numbers if they have one place, as the two zeros have. -/
theorem beq_iff (left : IsNumber x) (right : IsNumber y) : (x == y) = true ↔ place x = place y := by
  rw [place, place, ← (compare_eq_rank left right).2]
  change (x.toModel.unpack.compare y.toModel.unpack == some .eq) = true ↔ _
  exact beq_iff_eq

/-- Numbers are ordered as their places are. -/
theorem le_iff (left : IsNumber x) (right : IsNumber y) : x ≤ y ↔ place x ≤ place y := by
  -- At most is below or equal, on both sides.
  rw [le_iff_lt_or_eq, place, place, ← (compare_eq_rank left right).1,
    ← (compare_eq_rank left right).2]
  change decide ((x.toModel.unpack.compare y.toModel.unpack).any Ordering.isLE = true) = true ↔ _
  rw [decide_eq_true_iff]
  -- What remains is a statement about the four results of a comparison.
  cases x.toModel.unpack.compare y.toModel.unpack with
  | none => decide
  | some order => cases order <;> decide

/-- Numbers that are not above each other are equal as numbers. -/
theorem beq_of_le (left : IsNumber x) (right : IsNumber y) (below : x ≤ y) (above : y ≤ x) :
    (x == y) = true :=
  (left.beq_iff right).2 (le_antisymm ((left.le_iff right).1 below) ((right.le_iff left).1 above))

end IsNumber

end Double

end Fractal
