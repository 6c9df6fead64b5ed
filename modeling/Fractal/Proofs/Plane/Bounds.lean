import Fractal.Turtle.Path
import Fractal.Proofs.Double.Order
import Fractal.Proofs.Plane.Selection

/-!
The box around a drawing.

Each of its four sides is found by a choice among the coordinates of all end points, which finds an
extreme one as long as all of them are numbers. Main statement: the box is the smallest one around
all end points, whatever the order and the direction in which the segments are drawn.
-/

namespace Fractal

namespace Double

/-- The lower of two doubles, the second one where the first is not strictly lower. -/
def lower (x y : Float) : Float := if x < y then x else y

/-- The upper of two doubles, the second one where the first is not strictly higher. -/
def upper (x y : Float) : Float := if y < x then x else y

/-- Among numbers the lower one has the lesser place. -/
theorem selects_lower : Selects IsNumber place lower := by
  intro x y left right
  simp only [lower, left.lt_iff right]

/-- Among numbers the upper one has the lesser place in the opposite order. -/
theorem selects_upper : Selects IsNumber (OrderDual.toDual ∘ place) upper := by
  intro x y left right
  simp only [upper, right.lt_iff left, Function.comp_apply, OrderDual.toDual_lt_toDual]

end Double

/-- The axes of the plane. -/
inductive Axis where
  /-- The axis of the first coordinates. -/
  | horizontal
  /-- The axis of the second coordinates. -/
  | vertical

namespace Point

/-- The coordinate of a point on an axis. -/
def along (p : Point) : Axis → Float
  | .horizontal => p.x
  | .vertical => p.y

/-- Both coordinates are numbers, finite or not. -/
def IsNumeric (p : Point) : Prop := ∀ axis, Double.IsNumber (p.along axis)

/-- A point is numeric if its coordinates on the two axes are. -/
theorem isNumeric_iff {p : Point} :
    p.IsNumeric ↔ Double.IsNumber p.x ∧ Double.IsNumber p.y := by
  constructor
  · intro numeric
    exact ⟨numeric .horizontal, numeric .vertical⟩
  -- There are two axes, and each has its own condition.
  · rintro ⟨first, second⟩ (_ | _)
    · exact first
    · exact second

/-- Whether a point is numeric is decided coordinate by coordinate. -/
instance (p : Point) : Decidable p.IsNumeric := decidable_of_iff _ isNumeric_iff.symm

/-- Points with the same coordinates are the same. -/
theorem eq_of_along {a b : Point} (same : ∀ axis, a.along axis = b.along axis) : a = b := by
  obtain ⟨x, y⟩ := a
  obtain ⟨x', y'⟩ := b
  exact congrArg₂ Point.mk (same .horizontal) (same .vertical)

/-- The lower corner of two points has the lower coordinate on every axis. -/
theorem along_lower (a b : Point) (axis : Axis) :
    (a.lower b).along axis = Double.lower (a.along axis) (b.along axis) := by
  cases axis <;> rfl

/-- The upper corner of two points has the upper coordinate on every axis. -/
theorem along_upper (a b : Point) (axis : Axis) :
    (a.upper b).along axis = Double.upper (a.along axis) (b.along axis) := by
  cases axis <;> rfl

end Point

namespace Box

/-- On every axis, all of some points lie between the sides of a box. -/
def Encloses (box : Box) (points : List Point) : Prop :=
  ∀ p ∈ points, ∀ axis,
    box.low.along axis ≤ p.along axis ∧ p.along axis ≤ box.high.along axis

/-- The smallest box around some points: each of its sides goes through one of them. -/
structure IsHull (box : Box) (points : List Point) : Prop where
  /-- All points lie inside. -/
  encloses : box.Encloses points
  /-- A lower side has a coordinate of some point. -/
  low_along : ∀ axis, ∃ p ∈ points, p.along axis = box.low.along axis
  /-- An upper side has a coordinate of some point. -/
  high_along : ∀ axis, ∃ p ∈ points, p.along axis = box.high.along axis

/-- The sides of two boxes are at equal numbers, where the zeros are one number. -/
def Coincides (box other : Box) : Prop :=
  ∀ axis, (box.low.along axis == other.low.along axis) ∧
    (box.high.along axis == other.high.along axis)

/-- The box around two boxes. -/
def union (box other : Box) : Box :=
  { low := box.low.lower other.low, high := box.high.upper other.high }

/-- A point adds nothing to its own box. -/
theorem extend_point (p : Point) : (point p).extend p = point p := by
  -- Of a point and itself either choice is the same one.
  have lower : p.lower p = p := congrArg₂ Point.mk (ite_self _) (ite_self _)
  have upper : p.upper p = p := congrArg₂ Point.mk (ite_self _) (ite_self _)
  rw [extend, point, lower, upper]

/-- Boxes with the same sides are the same. -/
theorem eq_of_along {box other : Box}
    (low : ∀ axis, box.low.along axis = other.low.along axis)
    (high : ∀ axis, box.high.along axis = other.high.along axis) : box = other := by
  obtain ⟨_, _⟩ := box
  obtain ⟨_, _⟩ := other
  exact congrArg₂ Box.mk (Point.eq_of_along low) (Point.eq_of_along high)

/-- The lower sides of a grown box are the lowest coordinates. -/
theorem low_foldl_extend (box : Box) (points : List Point) (axis : Axis) :
    (points.foldl extend box).low.along axis =
      (points.map fun p => p.along axis).foldl Double.lower (box.low.along axis) := by
  induction points generalizing box with
  | nil => rfl
  | cons p rest ih => rw [List.foldl_cons, ih, extend, Point.along_lower]; rfl

/-- The upper sides of a grown box are the uppermost coordinates. -/
theorem high_foldl_extend (box : Box) (points : List Point) (axis : Axis) :
    (points.foldl extend box).high.along axis =
      (points.map fun p => p.along axis).foldl Double.upper (box.high.along axis) := by
  induction points generalizing box with
  | nil => rfl
  | cons p rest ih => rw [List.foldl_cons, ih, extend, Point.along_upper]; rfl

variable {first : Point} {points : List Point}

/-- The coordinates of numeric points are numbers. -/
theorem isNumber_of_mem_map (numeric : ∀ p ∈ points, p.IsNumeric) (axis : Axis) :
    ∀ x ∈ points.map fun p => p.along axis, Double.IsNumber x :=
  List.forall_mem_map.2 fun p member => numeric p member axis

/-- A side that is chosen among the coordinates of points goes through one, and no other is less. -/
theorem side_of_selects {κ : Type} [LinearOrder κ] {key : Float → κ}
    {choose : Float → Float → Float} (selects : Selects Double.IsNumber key choose)
    (start : first.IsNumeric) (numeric : ∀ p ∈ points, p.IsNumeric) (axis : Axis) {side : Float}
    (chosen : (points.map fun p => p.along axis).foldl choose (first.along axis) = side) :
    (∃ p ∈ first :: points, p.along axis = side) ∧
      ∀ p ∈ first :: points, key side ≤ key (p.along axis) := by
  have numbers := isNumber_of_mem_map numeric axis
  have member := selects.foldl_mem (start axis) numbers
  have least := selects.key_foldl_le (start axis) numbers
  -- The fold runs over the coordinates of all the points, of which it chooses one.
  have all : first.along axis :: points.map (fun p => p.along axis) =
      (first :: points).map fun p => p.along axis := rfl
  rw [chosen, all] at member least
  exact ⟨List.mem_map.1 member, fun p found => least _ (List.mem_map_of_mem found)⟩

/-- A side around two lists of points is chosen between the sides around each of them. -/
theorem side_append_of_selects {κ : Type} [LinearOrder κ] {key : Float → κ}
    {choose : Float → Float → Float} (selects : Selects Double.IsNumber key choose)
    {second : Point} {more : List Point} (start : first.IsNumeric)
    (numeric : ∀ p ∈ points, p.IsNumeric) (next : second.IsNumeric)
    (later : ∀ p ∈ more, p.IsNumeric) (axis : Axis) :
    ((points ++ second :: more).map fun p => p.along axis).foldl choose (first.along axis) =
      choose ((points.map fun p => p.along axis).foldl choose (first.along axis))
        ((more.map fun p => p.along axis).foldl choose (second.along axis)) := by
  rw [List.map_append, List.map_cons, List.foldl_append, List.foldl_cons]
  -- What was chosen among the earlier coordinates is a number itself.
  exact selects.foldl_choose
    (selects.valid_foldl (start axis) (isNumber_of_mem_map numeric axis))
    (next axis) (isNumber_of_mem_map later axis)

/-- The box grown from a point over other ones is the smallest around all of them. -/
theorem isHull_foldl_extend (start : first.IsNumeric) (numeric : ∀ p ∈ points, p.IsNumeric) :
    (points.foldl extend (point first)).IsHull (first :: points) := by
  have every : ∀ p ∈ first :: points, p.IsNumeric := List.forall_mem_cons.2 ⟨start, numeric⟩
  -- Each side is chosen by its own order, and both hold for every axis.
  have low (axis : Axis) := side_of_selects Double.selects_lower start numeric axis
    (low_foldl_extend (point first) points axis).symm
  have high (axis : Axis) := side_of_selects Double.selects_upper start numeric axis
    (high_foldl_extend (point first) points axis).symm
  refine ⟨fun p member axis => ⟨?_, ?_⟩, fun axis => (low axis).1, fun axis => (high axis).1⟩
  -- A side is a number because it goes through one of the points.
  · obtain ⟨⟨q, found, same⟩, least⟩ := low axis
    exact (Double.IsNumber.le_iff (same ▸ every q found axis) (every p member axis)).2
      (least p member)
  · obtain ⟨⟨q, found, same⟩, least⟩ := high axis
    exact (Double.IsNumber.le_iff (every p member axis) (same ▸ every q found axis)).2
      (least p member)

/-- Boxes grown over two lists of points have the box over both lists for their union. -/
theorem foldl_extend_append {second : Point} {more : List Point} (start : first.IsNumeric)
    (numeric : ∀ p ∈ points, p.IsNumeric) (next : second.IsNumeric)
    (later : ∀ p ∈ more, p.IsNumeric) :
    (points ++ second :: more).foldl extend (point first) =
      (points.foldl extend (point first)).union (more.foldl extend (point second)) := by
  -- A box is known by its sides, and each side splits by itself.
  refine eq_of_along (fun axis => ?_) (fun axis => ?_)
  · rw [low_foldl_extend, union, Point.along_lower, low_foldl_extend, low_foldl_extend]
    exact side_append_of_selects Double.selects_lower start numeric next later axis
  · rw [high_foldl_extend, union, Point.along_upper, high_foldl_extend, high_foldl_extend]
    exact side_append_of_selects Double.selects_upper start numeric next later axis

namespace IsHull

variable {box other : Box}

/-- No box around the points is smaller. -/
theorem smallest (hull : box.IsHull points) (around : other.Encloses points) (axis : Axis) :
    other.low.along axis ≤ box.low.along axis ∧ box.high.along axis ≤ other.high.along axis := by
  -- Each side goes through a point, which the other box has to enclose.
  obtain ⟨p, lower, low⟩ := hull.low_along axis
  obtain ⟨q, upper, high⟩ := hull.high_along axis
  exact ⟨low ▸ (around p lower axis).1, high ▸ (around q upper axis).2⟩

/-- The sides of a smallest box around numeric points are at numbers. -/
theorem isNumber (numeric : ∀ p ∈ points, p.IsNumeric) (hull : box.IsHull points) (axis : Axis) :
    Double.IsNumber (box.low.along axis) ∧ Double.IsNumber (box.high.along axis) := by
  obtain ⟨p, lower, low⟩ := hull.low_along axis
  obtain ⟨q, upper, high⟩ := hull.high_along axis
  exact ⟨low ▸ numeric p lower axis, high ▸ numeric q upper axis⟩

/-- There is only one smallest box around numeric points. -/
theorem coincides (numeric : ∀ p ∈ points, p.IsNumeric) (hull : box.IsHull points)
    (same : other.IsHull points) : box.Coincides other := by
  intro axis
  obtain ⟨low, high⟩ := hull.isNumber numeric axis
  obtain ⟨low', high'⟩ := same.isNumber numeric axis
  -- Neither of two smallest boxes is smaller than the other one.
  obtain ⟨lowAbove, highBelow⟩ := hull.smallest same.encloses axis
  obtain ⟨lowBelow, highAbove⟩ := same.smallest hull.encloses axis
  exact ⟨low.beq_of_le low' lowBelow lowAbove, high.beq_of_le high' highBelow highAbove⟩

/-- It is the set of points that decides of which points a box is the smallest. -/
theorem congr_mem {others : List Point} (same : ∀ p, p ∈ points ↔ p ∈ others)
    (hull : box.IsHull points) : box.IsHull others where
  encloses p member := hull.encloses p ((same p).2 member)
  low_along axis := by simpa only [same] using hull.low_along axis
  high_along axis := by simpa only [same] using hull.high_along axis

end IsHull

end Box

/-- A segment drawn the other way. -/
def Segment.swap {π : Type} (s : Segment π) : Segment π := ⟨s.stop, s.start⟩

/-- The same segments in any order, each of them drawn either way. -/
def Redrawn {π : Type} (segments others : List (Segment π)) : Prop :=
  ∃ reordered, segments.Perm reordered ∧
    List.Forall₂ (fun s other => other = s ∨ other = s.swap) reordered others

/-- The start and the end of every segment, in the order in which they were drawn. -/
def Segment.ends {π : Type} (segments : List (Segment π)) : List π :=
  segments.flatMap fun s => [s.start, s.stop]

/-- Segments that are drawn in another way have the same end points. -/
theorem Redrawn.mem_ends_iff {π : Type} {segments others : List (Segment π)}
    (redrawn : Redrawn segments others) (p : π) :
    p ∈ Segment.ends segments ↔ p ∈ Segment.ends others := by
  obtain ⟨reordered, perm, drawn⟩ := redrawn
  -- Reordering moves the points about and loses none.
  have moved : p ∈ Segment.ends segments ↔ p ∈ Segment.ends reordered :=
    (perm.flatMap_right _).mem_iff
  rw [moved]
  clear moved perm
  -- Segment by segment there are the same two points, in one order or the other.
  induction drawn with
  | nil => rfl
  | @cons s other rest others either _ ih =>
    rw [Segment.ends, Segment.ends, List.flatMap_cons, List.flatMap_cons, List.mem_append,
      List.mem_append]
    refine or_congr ?_ ih
    -- A stroke the other way round has its two points in the other order.
    rcases either with rfl | rfl
    · rfl
    · exact List.Perm.mem_iff (.swap s.stop s.start [])

namespace Path

/-- The end points of all segments. -/
def ends (path : Path) : List Point := Segment.ends path.segments

/-- All coordinates of a drawing are numbers, finite or not. -/
def IsNumeric (path : Path) : Prop := ∀ p ∈ path.ends, p.IsNumeric

/-- Whether a drawing is numeric is decided end point by end point. -/
instance (path : Path) : Decidable path.IsNumeric :=
  inferInstanceAs (Decidable (∀ p ∈ path.ends, p.IsNumeric))

/-- The box is grown from the first end point over all others, if there is any. -/
theorem bounds_eq (path : Path) : path.bounds =
    path.ends.head?.map fun first => path.ends.tail.foldl Box.extend (.point first) := by
  rw [bounds, ends]
  -- The segments are folded over as they come, two points at a time.
  cases path.segments with
  | nil => rfl
  | cons s rest =>
    have ends : Segment.ends (s :: rest) = s.start :: s.stop :: Segment.ends rest := rfl
    -- The first start is met once more at the first segment, where it adds nothing.
    rw [ends, List.head?_cons, List.head?_cons, List.tail_cons, Option.map_some, Option.map_some,
      List.foldl_cons, List.foldl_cons, Box.extend_point, Segment.ends, List.foldl_flatMap]
    rfl

/-- A drawing has a box exactly if there is a first end point to grow it from. -/
theorem bounds_eq_some_iff {path : Path} {box : Box} : path.bounds = some box ↔
    ∃ first more, path.ends = first :: more ∧ more.foldl Box.extend (.point first) = box := by
  rw [bounds_eq]
  cases path.ends with
  | nil => simp
  | cons first more => simp

/-- The box around a drawing is the smallest around its end points. -/
theorem isHull_of_bounds {path : Path} (numeric : path.IsNumeric) {box : Box}
    (bounds : path.bounds = some box) : box.IsHull path.ends := by
  -- The first point starts the box, and the others extend it.
  obtain ⟨first, more, points, rfl⟩ := bounds_eq_some_iff.1 bounds
  rw [IsNumeric, points, List.forall_mem_cons] at numeric
  rw [points]
  exact Box.isHull_foldl_extend numeric.1 numeric.2

/-- A drawing has no box exactly if it has no end points. -/
theorem bounds_eq_none_iff (path : Path) : path.bounds = none ↔ path.ends = [] := by
  rw [bounds_eq, Option.map_eq_none_iff, List.head?_eq_none_iff]

/-- Which end points there are decides where the box is, and their order does not. -/
theorem bounds_coincide {path other : Path} (numeric : path.IsNumeric)
    (same : ∀ p, p ∈ path.ends ↔ p ∈ other.ends) :
    Option.Rel Box.Coincides path.bounds other.bounds := by
  -- The other path has no points but these, so it is numeric too.
  have numeric' : other.IsNumeric := fun p member => numeric p ((same p).2 member)
  -- There is no box around either of them, or there are two smallest ones around the same points.
  have empty : path.bounds = none ↔ other.bounds = none := by
    rw [bounds_eq_none_iff, bounds_eq_none_iff, List.eq_nil_iff_forall_not_mem,
      List.eq_nil_iff_forall_not_mem]
    exact forall_congr' fun p => not_congr (same p)
  cases found : path.bounds with
  | none =>
    rw [empty.1 found]
    exact .none
  | some box =>
    cases found' : other.bounds with
    | none => cases found.symm.trans (empty.2 found')
    | some box' =>
      have hull' := (isHull_of_bounds numeric' found').congr_mem fun p => (same p).symm
      exact .some ((isHull_of_bounds numeric found).coincides numeric hull')

/-- The box around two drawings in one is the box around their boxes. -/
theorem bounds_append {path other : Path} (numeric : path.IsNumeric) (numeric' : other.IsNumeric)
    {box box' : Box} (bounds : path.bounds = some box) (bounds' : other.bounds = some box')
    (final : Pose) :
    ({ segments := path.segments ++ other.segments, final } : Path).bounds =
      some (box.union box') := by
  obtain ⟨first, more, points, rfl⟩ := bounds_eq_some_iff.1 bounds
  obtain ⟨second, later, points', rfl⟩ := bounds_eq_some_iff.1 bounds'
  -- The points of the joined path are those of the one and then those of the other.
  have joined : ({ segments := path.segments ++ other.segments, final } : Path).ends =
      path.ends ++ other.ends := List.flatMap_append
  rw [points, points'] at joined
  rw [IsNumeric, points, List.forall_mem_cons] at numeric
  rw [IsNumeric, points', List.forall_mem_cons] at numeric'
  exact bounds_eq_some_iff.2 ⟨first, more ++ second :: later, joined,
    Box.foldl_extend_append numeric.1 numeric.2 numeric'.1 numeric'.2⟩

/--
The box around a drawing is the smallest one, as long as all coordinates are numbers.

There is none only if nothing is drawn. Otherwise it holds both ends of every segment, and each of
its sides goes through one of them, so that no box around all of them is smaller. It stays where it
is when the segments are reordered and drawn the other way, with the zeros as one number, and the
box around two drawings has the lower and the upper corners of their boxes.
-/
theorem bounds_smallest (path : Path) (numeric : path.IsNumeric) :
    (path.bounds = none ↔ path.segments = []) ∧
      (∀ box, path.bounds = some box → box.IsHull path.ends ∧
        ∀ around : Box, around.Encloses path.ends → ∀ axis,
          around.low.along axis ≤ box.low.along axis ∧
            box.high.along axis ≤ around.high.along axis) ∧
      (∀ other : Path, Redrawn path.segments other.segments →
        Option.Rel Box.Coincides path.bounds other.bounds) ∧
      ∀ other : Path, other.IsNumeric → path.segments ≠ [] → other.segments ≠ [] →
        ∃ box box', path.bounds = some box ∧ other.bounds = some box' ∧
          ∀ final, ({ segments := path.segments ++ other.segments, final } : Path).bounds =
            some (box.union box') := by
  have empty (path : Path) : path.bounds = none ↔ path.segments = [] := by
    rw [bounds, Option.map_eq_none_iff, List.head?_eq_none_iff]
  refine ⟨empty path, fun box found => ?_, fun other redrawn => ?_,
    fun other numeric' some some' => ?_⟩
  -- Around the points of the path the box is a hull, and no smaller box encloses them.
  · have hull := isHull_of_bounds numeric found
    exact ⟨hull, fun around encloses axis => hull.smallest encloses axis⟩
  -- Redrawing keeps the points, which is all that the box depends on.
  · exact bounds_coincide numeric redrawn.mem_ends_iff
  -- Paths that have strokes have boxes, and these are joined as the paths are.
  · obtain ⟨box, found⟩ := Option.ne_none_iff_exists'.1 (mt (empty path).1 some)
    obtain ⟨box', found'⟩ := Option.ne_none_iff_exists'.1 (mt (empty other).1 some')
    exact ⟨box, box', found, found', bounds_append numeric numeric' found found'⟩

/-- Two strokes, the same drawn backwards and in the other order, and a third one apart. -/
theorem bounds_smallest_strokes :
    let path : Path := { segments := [⟨⟨0, 0⟩, ⟨10, -5⟩⟩, ⟨⟨-0.0, 2⟩, ⟨1, 7⟩⟩], final := .home }
    let other : Path := { segments := [⟨⟨1, 7⟩, ⟨-0.0, 2⟩⟩, ⟨⟨10, -5⟩, ⟨0, 0⟩⟩], final := .home }
    let apart : Path := { segments := [⟨⟨-3, 1 / 0⟩, ⟨4, 4⟩⟩], final := .home }
    path.IsNumeric ∧ Redrawn path.segments other.segments ∧ apart.IsNumeric ∧
      (∃ box, path.bounds = some box ∧ box.IsHull path.ends) ∧
      Option.Rel Box.Coincides path.bounds other.bounds ∧
      ∃ box box', path.bounds = some box ∧ apart.bounds = some box' ∧
        ({ segments := path.segments ++ apart.segments, final := .home } : Path).bounds =
          some (box.union box') := by
  intro path other apart
  have numeric : path.IsNumeric := by decide
  -- The strokes are swapped, and each is drawn backwards.
  have redrawn : Redrawn path.segments other.segments :=
    ⟨_, .swap _ _ _, .cons (.inr rfl) (.cons (.inr rfl) .nil)⟩
  have numeric' : apart.IsNumeric := by decide
  -- A coordinate may be infinite or a negative zero, since both are numbers.
  obtain ⟨-, hull, coincide, append⟩ := path.bounds_smallest numeric
  obtain ⟨box, box', found, found', joined⟩ := append apart numeric' (by simp [path])
    (by simp [apart])
  exact ⟨numeric, redrawn, numeric', ⟨box, found, (hull box found).1⟩, coincide other redrawn,
    box, box', found, found', joined .home⟩

end Path

end Fractal
