import Fractal.Figure

/-! What is reported while a grammar is expanded and a drawing is made. -/

namespace Fractal

/-- How much an event matters. -/
inductive Level where
  /-- A detail of a run. -/
  | trace
  /-- A step of a run that went as planned. -/
  | debug
  /-- Something that the caller may have got wrong. -/
  | warn
  deriving DecidableEq, Repr

/-- The value of one field of an event. -/
inductive Detail where
  /-- A whole number. -/
  | number (value : Int)
  /-- A text. -/
  | text (value : String)
  deriving DecidableEq, Repr

/-- Something that happened on the way to a result. -/
inductive Event where
  /-- A grammar was expanded, from so many symbols to so many. -/
  | expanded (depth : Int32) (startSymbols outputSymbols : Nat)
  /-- An expansion was refused for its size. -/
  | oversized (depth : Int32) (projected limit : Count)
  /-- The symbol at this position asked for a saved pose when none was left, and was passed over. -/
  | unmatchedPop (index : Nat)
  /-- A word ended with so many saved poses never restored. -/
  | openBranches (count : Nat)
  /-- A word was interpreted, with so many symbols and so many segments. -/
  | interpreted (symbols segments : Nat)
  /-- A request was rendered. -/
  | rendered (figure : Figure) (depth : Int32) (symbols segments : Nat)
  deriving DecidableEq

namespace Event

/-- How much an event matters. -/
def level : Event → Level
  | .expanded .. => .debug
  | .oversized .. => .warn
  | .unmatchedPop .. => .warn
  | .openBranches .. => .trace
  | .interpreted .. => .debug
  | .rendered .. => .debug

/-- The wording of an event. -/
def message : Event → String
  | .expanded .. => "expanded grammar"
  | .oversized .. => "rejected oversized expansion"
  | .unmatchedPop .. => "ignoring unmatched `]`"
  | .openBranches .. => "interpretation ended inside a branch"
  | .interpreted .. => "interpreted symbol string"
  | .rendered .. => "rendered draw request"

/-- The fields of an event, by name. -/
def fields : Event → List (String × Detail)
  | .expanded depth startSymbols outputSymbols =>
    [("depth", .number depth.toInt), ("axiom_symbols", .number startSymbols),
      ("output_symbols", .number outputSymbols)]
  | .oversized depth projected limit =>
    [("depth", .number depth.toInt), ("projected", .number projected.toNat),
      ("limit", .number limit.toNat)]
  | .unmatchedPop index => [("index", .number index)]
  | .openBranches count => [("open_branches", .number count)]
  | .interpreted symbols segments =>
    [("symbols", .number symbols), ("segments", .number segments)]
  | .rendered figure depth symbols segments =>
    [("fractal", .text figure.name), ("depth", .number depth.toInt),
      ("symbols", .number symbols), ("segments", .number segments)]

end Event

end Fractal
