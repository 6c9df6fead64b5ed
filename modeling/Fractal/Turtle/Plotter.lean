import Fractal.Run
import Fractal.Turtle.Path
import Fractal.Turtle.Setup

/-! Drawing the path that a word describes. -/

namespace Fractal

/-- The unmatched returns are allowed, or the first one is a fault. -/
def PopPolicy.judge (policy : PopPolicy) (skipped : List Nat) : Except Fault Unit :=
  match policy, skipped with
  | .strict, index :: _ => .error (.unmatchedPop index)
  | _, _ => .ok ()

namespace Walker

variable {σ π : Type}

/-- What a finished walk reports: skipped returns, open branches if there are any, and its size. -/
def events (w : Walker σ π) : List Event :=
  w.skipped.map .unmatchedPop ++
    (if w.saved.isEmpty then [] else [.openBranches w.saved.length]) ++
    [.interpreted w.read w.drawn.length]

/-- The drawing of a finished walk in the plane. -/
def path (w : Walker Pose Point) : Path :=
  { segments := w.segments, final := w.here }

end Walker

/-- A turtle that is set up and knows the operations of symbols. -/
structure Plotter where
  /-- The operations of the symbols. -/
  table : SymbolTable
  /-- The settings of every walk. -/
  setup : Setup

namespace Plotter

/-- A turtle with the customary symbols. -/
def ofSetup (setup : Setup) : Plotter := { table := .standard, setup }

/-- A turtle with the customary symbols and settings. -/
def standard : Plotter := ofSetup .standard

/-- The turtle after a symbol got another operation. -/
def assign (p : Plotter) (symbol : Char) (op : Op) : Plotter :=
  { p with table := p.table.assign symbol op }

/-- The walk over a word with turns of some angle, from the pose at the start. -/
def walk (p : Plotter) (angle : Float) (word : Word) : Walker Pose Point :=
  (Walker.start p.setup.pose).walk (Pose.gait p.setup.step angle) (p.table.ops word)

/-- The drawing of a word, with the turn angle of a grammar. -/
def interpret (p : Plotter) (g : Grammar) (word : Word) : Run Path := do
  Run.lift p.setup.validate
  let walker := p.walk g.angle word
  Run.lift (p.setup.policy.judge walker.skipped)
  -- Only a walk that is allowed reports what it has met.
  Run.report walker.events
  return walker.path

end Plotter

/-- The drawing of a word by the customary symbols, with strict returns. -/
def interpret (g : Grammar) (word : Word) (origin : Point) (heading step : Float) : Run Path :=
  (Plotter.ofSetup { origin, heading, step, policy := .strict }).interpret g word

end Fractal
