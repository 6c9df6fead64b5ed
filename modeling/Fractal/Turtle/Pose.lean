import Fractal.Plane.Point
import Fractal.Turtle.Walker

/-! Poses of a turtle in the plane: a position, and a heading in degrees that is never reduced. -/

namespace Fractal

/-- Where a turtle is and where it looks. -/
structure Pose where
  /-- The position of the pen. -/
  position : Point
  /-- The angle from the horizontal axis, counter-clockwise in degrees. -/
  heading : Float

namespace Pose

/-- The pose at the origin that looks along the horizontal axis. -/
def home : Pose := { position := .zero, heading := 0 }

/-- The number of radians in one degree, as one rounded quotient. -/
def radiansPerDegree : Float := 3.141592653589793 / 180

/-- The displacement of length one along the heading. -/
def direction (p : Pose) : Point :=
  let radians := p.heading * radiansPerDegree
  { x := radians.cos, y := radians.sin }

/-- The position a distance ahead. -/
def ahead (p : Pose) (distance : Float) : Point :=
  p.position + p.direction.scale distance

/-- The pose after a step of some distance ahead. -/
def forward (p : Pose) (distance : Float) : Pose :=
  { p with position := p.ahead distance }

/-- The pose after a turn counter-clockwise by some degrees. -/
def turn (p : Pose) (degrees : Float) : Pose :=
  { p with heading := p.heading + degrees }

/-- The gait of steps of one length and turns of one angle; to the right is a negated turn. -/
def gait (step angle : Float) : Gait Pose Point where
  position := position
  forward := fun p => p.forward step
  left := fun p => p.turn angle
  right := fun p => p.turn (-angle)

end Pose

end Fractal
