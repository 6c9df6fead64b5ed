import Fractal.Plane.Box
import Fractal.Turtle.Pose

/-!
Drawings as flat lists of segments.

Segments stand in the order in which they were drawn. A branch shows only in that its first segment
starts at an earlier position.
-/

namespace Fractal

/-- The length of a segment in the plane. -/
def Segment.length (s : Segment Point) : Float :=
  s.start.distance s.stop

/-- The segments of a drawing, and the pose in which it ended. -/
structure Path where
  /-- The segments, in the order in which they were drawn. -/
  segments : List (Segment Point)
  /-- The pose after the last symbol. -/
  final : Pose

namespace Path

/-- The drawing without segments that ends where it starts, at home. -/
def empty : Path := { segments := [], final := .home }

/-- The drawing with one more segment. -/
def add (path : Path) (segment : Segment Point) : Path :=
  { path with segments := path.segments ++ [segment] }

/-- The number of segments. -/
def size (path : Path) : Nat := path.segments.length

/-- Whether nothing was drawn. -/
def isEmpty (path : Path) : Bool := path.segments.isEmpty

/-- The box of all end points, unless nothing was drawn. -/
def bounds (path : Path) : Option Box :=
  path.segments.head?.map fun first =>
    -- The fold meets the first start once more, which adds nothing to its own box.
    path.segments.foldl (fun box s => (box.extend s.start).extend s.stop) (.point first.start)

end Path

end Fractal
