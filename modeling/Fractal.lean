import Fractal.Expansion.DepthFirst
import Fractal.Lattice.Gait
import Fractal.Turtle.Balance
import Fractal.Wire.Format
import Fractal.Proofs.Names
import Fractal.Proofs.Double
import Fractal.Proofs.Double.Order
import Fractal.Proofs.Plane.Bounds
import Fractal.Proofs.Plane.Gaps
import Fractal.Proofs.Grammar.Construction
import Fractal.Proofs.Wire.Laws
import Fractal.Proofs.Wire.Reading
import Fractal.Proofs.Grammar.Sources
import Fractal.Proofs.Grammar.Verdict
import Fractal.Proofs.Wire.Faithful
import Fractal.Proofs.Wire.RoundTrip
import Fractal.Proofs.Wire.PartialRequest
import Fractal.Proofs.Expansion
import Fractal.Proofs.Expansion.DepthFirst
import Fractal.Proofs.Growth.Alphabet
import Fractal.Proofs.Growth.Table
import Fractal.Proofs.Growth.Projection
import Fractal.Proofs.Growth.Passes
import Fractal.Proofs.Growth.Places
import Fractal.Proofs.Growth.Guard
import Fractal.Proofs.Growth.Agreement
import Fractal.Proofs.Turtle.Interpretation
import Fractal.Proofs.Turtle.BalancedExpansion
import Fractal.Proofs.Rendering
import Fractal.Proofs.Rendering.Report
import Fractal.Proofs.Renaming
import Fractal.Proofs.Acceptance
import Fractal.Proofs.Turtle.Branches
import Fractal.Proofs.Turtle.Replay
import Fractal.Proofs.Turtle.Continuation
import Fractal.Proofs.Turtle.Isolation
import Fractal.Proofs.Turtle.UnmatchedReturns
import Fractal.Proofs.Turtle.Repair
import Fractal.Proofs.Turtle.Report
import Fractal.Proofs.Turtle.Effect
import Fractal.Proofs.Turtle.Resumption
import Fractal.Proofs.Turtle.Connection
import Fractal.Proofs.Turtle.Trail
import Fractal.Proofs.Turtle.Strokes
import Fractal.Proofs.Turtle.Trunk
import Fractal.Proofs.Lattice.Hilbert
import Fractal.Proofs.Lattice.Rotation
import Fractal.Proofs.Lattice.Outline
