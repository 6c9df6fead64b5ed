import Fractal.Fault
import Fractal.Grammar.Basic
import Fractal.Turtle.Pose

/-! How a turtle is set up before a walk: its pose, the length of its steps, and its strictness. -/

namespace Fractal

/-- What becomes of a return to a saved pose when none is left. -/
inductive PopPolicy where
  /-- The walk is refused. -/
  | strict
  /-- The return is skipped with a warning. -/
  | lenient
  deriving DecidableEq, Repr

/-- The name that a policy is written by. -/
def PopPolicy.name : PopPolicy → String
  | .strict => "Strict"
  | .lenient => "Lenient"

/-- Every policy. -/
def PopPolicy.all : List PopPolicy := [.strict, .lenient]

/-- The settings of a walk. -/
structure Setup where
  /-- The position of the pen at the start. -/
  origin : Point
  /-- The heading at the start, in degrees. -/
  heading : Float
  /-- The length of every step. -/
  step : Float
  /-- The treatment of unmatched returns. -/
  policy : PopPolicy

namespace Setup

/-- The settings that hold unless others are given. -/
def standard : Setup := { origin := .zero, heading := 0, step := 10, policy := .strict }

/-- The pose at the start. -/
def pose (s : Setup) : Pose := { position := s.origin, heading := s.heading }

/-- The settings are in order, or the first fault of the step, the origin and the heading. -/
def validate (s : Setup) : Except Fault Unit :=
  if ¬PositiveFinite s.step then .error (.badStep s.step)
  else if ¬s.origin.isFinite then .error (.badOrigin s.origin)
  else if ¬s.heading.isFinite then .error (.badHeading s.heading)
  else .ok ()

end Setup

end Fractal
