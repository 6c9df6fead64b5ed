import Fractal.Growth.Projection
import Fractal.Turtle.Plotter

/-! Requests for a drawing of a catalogued figure, and their fulfilment from end to end. -/

namespace Fractal

/-- What a host asks for. -/
structure Request where
  /-- The name of the figure. -/
  figureName : String
  /-- The length of one step. -/
  stepSize : Float
  /-- The number of rounds. -/
  depth : Int32
  /-- The position at the start. -/
  origin : Point
  /-- The heading at the start, in degrees. -/
  heading : Float
  /-- The largest number of symbols that is accepted. -/
  maxSymbols : Count

/-- What a host gets. -/
structure Drawing where
  /-- The figure that was drawn. -/
  figure : Figure
  /-- The number of symbols of the expansion. -/
  symbolCount : Nat
  /-- The drawing itself. -/
  path : Path

namespace Request

/-- The step of a request that names none. -/
def standardStep : Float := 10

/-- The depth of a request that names none. -/
def standardDepth : Int32 := 2

/-- The limit of a request that names none. -/
def standardMaxSymbols : Count := 4000000

/-- The request for a figure that leaves everything else at its standard. -/
def ofName (figureName : String) : Request where
  figureName := figureName
  stepSize := standardStep
  depth := standardDepth
  origin := .zero
  heading := 0
  maxSymbols := standardMaxSymbols

/-- The figure that is asked for. -/
def figure (r : Request) : Except Fault Figure :=
  Figure.ofName? r.figureName

/-- The settings that are asked for; an unmatched return is never passed over. -/
def setup (r : Request) : Setup :=
  { origin := r.origin, heading := r.heading, step := r.stepSize, policy := .strict }

/-- The drawing that is asked for. Everything is checked before the first round. -/
def render (r : Request) : Run Drawing := do
  let figure ← Run.lift r.figure
  -- The walk checks these settings again, but only after the word is there.
  Run.lift r.setup.validate
  let word ← figure.grammar.expandBounded r.depth r.maxSymbols
  let path ← (Plotter.ofSetup r.setup).interpret figure.grammar word
  Run.report [.rendered figure r.depth word.length path.size]
  return { figure, symbolCount := word.length, path }

end Request

end Fractal
