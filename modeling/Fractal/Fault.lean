import Fractal.Count
import Fractal.Decimal.Positional
import Fractal.Plane.Point

/-! The causes for which a grammar, an expansion or a drawing is refused, and their wording. -/

namespace Fractal

/-- Why a start word, rules and an angle make no grammar. -/
inductive GrammarFault where
  /-- There is no symbol to start from. -/
  | emptyStart
  /-- The turn angle is not a positive finite number. -/
  | badAngle (angle : Float)
  /-- A rule has the predecessor of an earlier rule. -/
  | repeatedRule (symbol : Char)

/-- Why an expansion, an interpretation or a drawing is refused. -/
inductive Fault where
  /-- The grammar itself is refused. -/
  | grammar (cause : GrammarFault)
  /-- The number of rounds is negative. -/
  | invalidDepth (depth : Int32)
  /-- A saved pose is asked for when none is left, by the symbol at this position. -/
  | unmatchedPop (index : Nat)
  /-- The step is not a positive finite number. -/
  | badStep (step : Float)
  /-- The starting position has a coordinate that is not finite. -/
  | badOrigin (origin : Point)
  /-- The starting heading is not finite. -/
  | badHeading (heading : Float)
  /-- No figure of the catalogue has this name. -/
  | unknownFigure (name : String)
  /-- The expansion would have more symbols than allowed. -/
  | tooLarge (projected limit : Count)

/-- The wording of a refused grammar. -/
def GrammarFault.message : GrammarFault → String
  | .emptyStart => "axiom must contain at least one symbol"
  | .badAngle angle =>
    "turn angle must be a positive, finite number of degrees (got " ++ decimalText angle ++ ")"
  | .repeatedRule symbol => "duplicate production rule for symbol `" ++ symbol.toString ++ "`"

/-- The wording of a refusal. -/
def Fault.message : Fault → String
  | .grammar cause => "invalid grammar: " ++ cause.message
  | .invalidDepth depth =>
    "recursion depth must be non-negative (got " ++ toString depth.toInt ++ ")"
  | .unmatchedPop index =>
    "unmatched `]` at symbol index " ++ toString index ++ ": state stack is empty"
  | .badStep step =>
    "step size must be a positive, finite number (got " ++ decimalText step ++ ")"
  | .badOrigin origin =>
    "origin must have finite coordinates (got (" ++ decimalText origin.x ++ ", " ++
      decimalText origin.y ++ "))"
  | .badHeading heading =>
    "initial heading must be a finite number of degrees (got " ++ decimalText heading ++ ")"
  | .unknownFigure name => "unknown fractal name `" ++ name ++ "`"
  | .tooLarge projected limit =>
    "expansion would produce " ++ toString projected.toNat ++
      " symbols, exceeding the limit of " ++ toString limit.toNat

end Fractal
