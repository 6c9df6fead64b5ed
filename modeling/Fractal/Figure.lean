import Fractal.Grammar.Basic

/-! The catalogue of figures that come with a grammar. -/

namespace Fractal

/-- A figure of the catalogue. -/
inductive Figure where
  /-- Three Koch curves around a triangle. -/
  | kochSnowflake
  /-- The dragon curve. -/
  | dragonCurve
  /-- The outline of a Sierpinski triangle. -/
  | sierpinskiTriangle
  /-- The Hilbert curve. -/
  | hilbertCurve
  /-- A plant with two side branches per stroke. -/
  | tree1
  /-- A plant that forks at the end of every stroke. -/
  | tree2
  /-- A plant that grows from its buds only. -/
  | tree3
  /-- A bush with two curled branches. -/
  | tree4
  deriving DecidableEq, Repr

namespace Figure

/-- Every figure, in the order of the catalogue. -/
def all : List Figure :=
  [kochSnowflake, dragonCurve, sierpinskiTriangle, hilbertCurve, tree1, tree2, tree3, tree4]

/-- The name that a host calls a figure by. -/
def name : Figure → String
  | kochSnowflake => "kochSnowflake"
  | dragonCurve => "dragonCurve"
  | sierpinskiTriangle => "sierpinskiTriangle"
  | hilbertCurve => "hilbertCurve"
  | tree1 => "tree1"
  | tree2 => "tree2"
  | tree3 => "tree3"
  | tree4 => "tree4"

/-- The figure of a name, spelled exactly. -/
def ofName? (name : String) : Except Fault Figure :=
  match all.find? fun figure => figure.name == name with
  -- The first figure of the name is the only one, since no two names agree.
  | some figure => .ok figure
  | none => .error (.unknownFigure name)

/-- The start word of a figure. -/
def start : Figure → Word
  | kochSnowflake => "F++F++F".toList
  | dragonCurve => "FX".toList
  | sierpinskiTriangle => "FXF--FF--FF".toList
  | hilbertCurve => "X".toList
  | tree1 => "F".toList
  | tree2 => "F".toList
  | tree3 => "X".toList
  | tree4 => "F".toList

/-- The rules of a figure, in the order of their declaration. -/
def rules : Figure → Array Rule
  | kochSnowflake => #[⟨'F', "F-F++F-F".toList⟩]
  | dragonCurve => #[⟨'F', "F".toList⟩, ⟨'X', "X+YF+".toList⟩, ⟨'Y', "-FX-Y".toList⟩]
  | sierpinskiTriangle => #[⟨'F', "FF".toList⟩, ⟨'X', "--FXF++FXF++FXF--".toList⟩]
  | hilbertCurve =>
    #[⟨'F', "F".toList⟩, ⟨'X', "-YF+XFX+FY-".toList⟩, ⟨'Y', "+XF-YFY-FX+".toList⟩]
  | tree1 => #[⟨'F', "F[+F]F[-F]F".toList⟩]
  | tree2 => #[⟨'F', "F[+F]F[-F][F]".toList⟩]
  | tree3 => #[⟨'F', "F".toList⟩, ⟨'X', "F[+X][-X]FX".toList⟩]
  | tree4 => #[⟨'F', "-F[-F+F-F]+[+F-F-F]".toList⟩]

/-- The turn angle of a figure, in degrees. -/
def angle : Figure → Float
  | kochSnowflake => 60
  | dragonCurve => 90
  | sierpinskiTriangle => 60
  | hilbertCurve => 90
  | tree1 => 25.7
  | tree2 => 20
  | tree3 => 25.7
  | tree4 => 20

/-- The grammar of a figure, whose parts are in order without a check. -/
def grammar (figure : Figure) : Grammar :=
  .ofTrusted figure.start figure.rules figure.angle (by cases figure <;> decide)
    (by cases figure <;> decide) (by cases figure <;> decide)

end Figure

end Fractal
