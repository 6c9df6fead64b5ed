import Fractal.Proofs.Plane.Bounds

/-!
The box around a drawing with coordinates that are no numbers.

On its own axis such a coordinate displaces the sides that were found before it. Main statement:
the box is the one around what is drawn behind the last such coordinate, so that it holds all
numbers exactly if none of the earlier ones lies farther out.
-/

namespace Fractal

namespace Double

/-- What is no number displaces the lower side that was found before it, and is displaced next. -/
theorem displaces_lower : Displaces IsNumber lower := by
  intro x y gap
  -- Only numbers lie below one another, so a gap fails the test and the second is taken.
  exact if_neg fun below => gap (isNumber_of_lt below)

/-- What is no number displaces the upper side that was found before it, and is displaced next. -/
theorem displaces_upper : Displaces IsNumber upper := by
  intro x y gap
  -- The test is the other way round, and only numbers pass it too.
  exact if_neg fun below => gap (isNumber_of_lt below).symm

end Double

namespace Path

/-- The coordinates of all end points on an axis, in the order in which they were drawn. -/
def coordinates (path : Path) (axis : Axis) : List Float :=
  path.ends.map fun p => p.along axis

/-- The coordinates on an axis behind the last one that is no number. -/
def lately (path : Path) (axis : Axis) : List Float :=
  recent Double.IsNumber (path.coordinates axis)

/-- Both sides of the box on an axis are chosen among the coordinates there. -/
theorem isChoice_sides {path : Path} {box : Box} (bounds : path.bounds = some box) (axis : Axis) :
    IsChoice Double.IsNumber Double.place (path.coordinates axis) (box.low.along axis) ∧
      IsChoice Double.IsNumber (OrderDual.toDual ∘ Double.place) (path.coordinates axis)
        (box.high.along axis) := by
  obtain ⟨first, more, points, rfl⟩ := bounds_eq_some_iff.1 bounds
  have all : path.coordinates axis = first.along axis :: more.map fun p => p.along axis := by
    rw [coordinates, points, List.map_cons]
  -- Each side of the box is a fold over the coordinates, one side for each order.
  rw [all, Box.low_foldl_extend, Box.high_foldl_extend]
  exact ⟨isChoice_foldl Double.selects_lower Double.displaces_lower _ _,
    isChoice_foldl Double.selects_upper Double.displaces_upper _ _⟩

section Sides

variable {path : Path} {box : Box} {axis : Axis}

/-- The sides of the box are at late coordinates, and all of these lie between them. -/
theorem sides_of_late (bounds : path.bounds = some box) (some : path.lately axis ≠ []) :
    box.low.along axis ∈ path.lately axis ∧ box.high.along axis ∈ path.lately axis ∧
      ∀ x ∈ path.lately axis, box.low.along axis ≤ x ∧ x ≤ box.high.along axis := by
  obtain ⟨low, high⟩ := isChoice_sides bounds axis
  have lower := low.mem some
  have upper := high.mem some
  refine ⟨lower, upper, fun x late => ?_⟩
  -- Every late coordinate is a number, so the order of places is the order of doubles.
  have number := valid_of_mem_recent late
  exact ⟨((valid_of_mem_recent lower).le_iff number).2 (low.least x late),
    (number.le_iff (valid_of_mem_recent upper)).2 (high.least x late)⟩

/-- A number lies between the sides of the box exactly if it lies between two late coordinates. -/
theorem between_sides_iff (bounds : path.bounds = some box) {x : Float}
    (number : Double.IsNumber x) :
    box.low.along axis ≤ x ∧ x ≤ box.high.along axis ↔
      (∃ y ∈ path.lately axis, y ≤ x) ∧ ∃ z ∈ path.lately axis, x ≤ z := by
  constructor
  · rintro ⟨above, below⟩
    -- A side that is comparable with anything is a number, and so there are late coordinates.
    have some : path.lately axis ≠ [] := fun none =>
      (isChoice_sides bounds axis).1.gap none (Double.isNumber_of_le above).1
    obtain ⟨lower, upper, -⟩ := sides_of_late bounds some
    exact ⟨⟨_, lower, above⟩, ⟨_, upper, below⟩⟩
  -- A late coordinate on either side pushes the side of the box beyond it.
  · rintro ⟨⟨y, late, above⟩, z, late', below⟩
    obtain ⟨lower, upper, between⟩ := sides_of_late bounds (List.ne_nil_of_mem late)
    have low := valid_of_mem_recent lower
    have high := valid_of_mem_recent upper
    have first := valid_of_mem_recent late
    have second := valid_of_mem_recent late'
    constructor
    · exact (low.le_iff number).2
        (((low.le_iff first).1 (between y late).1).trans ((first.le_iff number).1 above))
    · exact (number.le_iff high).2
        (((number.le_iff second).1 below).trans ((second.le_iff high).1 (between z late').2))

end Sides

/--
The box around a drawing is the one around its late coordinates, axis by axis.

Late are those behind the last one that is no number. If there are none, neither side is a number.
Otherwise the sides are the extreme ones of them. So all numbers of an axis lie between the sides
exactly if each of them lies between two late ones, as they do where no number comes before a
coordinate that is none.
-/
theorem bounds_recent (path : Path) (drawn : path.segments ≠ []) :
    ∃ box, path.bounds = some box ∧ ∀ axis,
      let low := box.low.along axis
      let high := box.high.along axis
      let late := path.lately axis
      (late = [] → ¬Double.IsNumber low ∧ ¬Double.IsNumber high) ∧
      (late ≠ [] → low ∈ late ∧ high ∈ late ∧ ∀ x ∈ late, low ≤ x ∧ x ≤ high) ∧
      ((∀ x ∈ path.coordinates axis, Double.IsNumber x → low ≤ x ∧ x ≤ high) ↔
        ∀ x ∈ path.coordinates axis, Double.IsNumber x →
          (∃ y ∈ late, y ≤ x) ∧ ∃ z ∈ late, x ≤ z) := by
  -- A path that has a stroke has a first end, and with it a box.
  have some : path.bounds ≠ none := by
    rw [bounds, ne_eq, Option.map_eq_none_iff, List.head?_eq_none_iff]
    exact drawn
  obtain ⟨box, found⟩ := Option.ne_none_iff_exists'.1 some
  refine ⟨box, found, fun axis => ⟨fun none => ?_, sides_of_late found, ?_⟩⟩
  -- No late coordinate: the last end was no number, and it is what both sides are.
  · obtain ⟨low, high⟩ := isChoice_sides found axis
    exact ⟨low.gap none, high.gap none⟩
  -- Side by side, a number is enclosed when late coordinates lie around it.
  · exact forall₂_congr fun x _ => forall_congr' fun number => between_sides_iff found number

/-- On one axis only numbers follow what is none, and on the other a number is lost before it. -/
theorem bounds_recent_strokes :
    let path : Path := { segments := [⟨⟨0 / 0, 0⟩, ⟨1, 3⟩⟩, ⟨⟨2, 0 / 0⟩, ⟨-1, 1⟩⟩], final := .home }
    path.segments ≠ [] ∧ ∃ box, path.bounds = some box ∧
      (∀ x ∈ path.coordinates .horizontal, Double.IsNumber x → box.low.x ≤ x ∧ x ≤ box.high.x) ∧
      ¬∀ y ∈ path.coordinates .vertical, Double.IsNumber y → box.low.y ≤ y ∧ y ≤ box.high.y := by
  intro path
  have drawn : path.segments ≠ [] := List.cons_ne_nil _ _
  obtain ⟨box, found, sides⟩ := path.bounds_recent drawn
  -- The horizontal gap comes first and the rest enclose all; the vertical one loses numbers.
  refine ⟨drawn, box, found, (sides .horizontal).2.2.2 ?_, fun all => ?_⟩
  · decide +kernel
  · exact absurd ((sides .vertical).2.2.1 all) (by decide +kernel)

/-- A stroke to a place that is none hides from the box where the drawing started. -/
theorem number_outside_bounds :
    let path := (Path.empty.add ⟨⟨0, 0⟩, ⟨0 / 0, 0⟩⟩).add ⟨⟨1, 0⟩, ⟨1, 0⟩⟩
    ∃ box, path.bounds = some box ∧ ∃ x ∈ path.coordinates .horizontal,
      Double.IsNumber x ∧ ¬(box.low.along .horizontal ≤ x ∧ x ≤ box.high.along .horizontal) := by
  refine ⟨_, rfl, 0, ?_, ?_, ?_⟩
  · exact List.mem_cons_self
  · decide +kernel
  · decide +kernel

end Path

end Fractal
