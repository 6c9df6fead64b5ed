/-! Points of the drawing plane, with coordinates in double precision. -/

namespace Fractal

/-- A position or a displacement in the plane. -/
structure Point where
  /-- Horizontal coordinate. -/
  x : Float
  /-- Vertical coordinate. -/
  y : Float

namespace Point

/-- The origin of the plane. -/
def zero : Point := { x := 0, y := 0 }

/-- Points are added coordinate by coordinate. -/
instance : Add Point := ⟨fun a b => { x := a.x + b.x, y := a.y + b.y }⟩

/-- Points are subtracted coordinate by coordinate. -/
instance : Sub Point := ⟨fun a b => { x := a.x - b.x, y := a.y - b.y }⟩

/-- A displacement stretched by a factor. -/
def scale (a : Point) (factor : Float) : Point :=
  { x := a.x * factor, y := a.y * factor }

/-- The distance from the origin, by the plain sum of squares. -/
def length (a : Point) : Float :=
  (a.x * a.x + a.y * a.y).sqrt

/-- The distance between two points is the length of their difference. -/
def distance (a b : Point) : Float :=
  (a - b).length

/-- Both coordinates are finite numbers. -/
def isFinite (a : Point) : Bool :=
  a.x.isFinite && a.y.isFinite

/-- The lower coordinates of two points, those of `b` where `a` is not strictly lower. -/
def lower (a b : Point) : Point :=
  { x := if a.x < b.x then a.x else b.x
    y := if a.y < b.y then a.y else b.y }

/-- The upper coordinates of two points, those of `b` where `a` is not strictly higher. -/
def upper (a b : Point) : Point :=
  { x := if b.x < a.x then a.x else b.x
    y := if b.y < a.y then a.y else b.y }

end Point

end Fractal
