import Fractal.Plane.Point

/-! Boxes with sides along the axes. -/

namespace Fractal

/-- All points between a lower and an upper corner. -/
structure Box where
  /-- The corner with the least coordinates. -/
  low : Point
  /-- The corner with the greatest coordinates. -/
  high : Point

namespace Box

/-- The box of a single point. -/
def point (p : Point) : Box := { low := p, high := p }

/-- The box grown just enough to take in a point. -/
def extend (box : Box) (p : Point) : Box :=
  { low := box.low.lower p, high := box.high.upper p }

end Box

end Fractal
