import Fractal.Turtle.Op

/-!
A walk that draws segments and saves places to come back to.

How a place changes with a step or a turn is a gait, so that one walker serves the plane in double
precision and exact lattices alike. A walk never fails: a return with nothing saved is skipped and
its position noted, and the caller judges it afterwards.
-/

namespace Fractal

/-- A straight stroke from one position to another. -/
structure Segment (π : Type) where
  /-- Where the stroke starts. -/
  start : π
  /-- Where the stroke ends. -/
  stop : π
  deriving DecidableEq, Repr

/-- How poses `σ` with positions `π` change with every kind of motion. -/
structure Gait (σ π : Type) where
  /-- The position of a pose. -/
  position : σ → π
  /-- One step forward. -/
  forward : σ → σ
  /-- One turn counter-clockwise. -/
  left : σ → σ
  /-- One turn clockwise. -/
  right : σ → σ

/-- A walk between two symbols. -/
structure Walker (σ π : Type) where
  /-- The present pose. -/
  here : σ
  /-- The saved poses, the latest first. -/
  saved : List σ
  /-- The segments drawn, the latest first. -/
  drawn : List (Segment π)
  /-- The positions in the word of the returns that found nothing saved, the latest first. -/
  unmatched : List Nat
  /-- The number of symbols read. -/
  read : Nat

namespace Walker

variable {σ π : Type}

/-- A walk that has read nothing. -/
def start (pose : σ) : Walker σ π :=
  { here := pose, saved := [], drawn := [], unmatched := [], read := 0 }

/-- What one operation does to the pose, the saved poses, the segments and the notes. -/
def act (gait : Gait σ π) (w : Walker σ π) : Op → Walker σ π
  | .draw =>
    let next := gait.forward w.here
    { w with here := next, drawn := ⟨gait.position w.here, gait.position next⟩ :: w.drawn }
  | .move => { w with here := gait.forward w.here }
  | .turnLeft => { w with here := gait.left w.here }
  | .turnRight => { w with here := gait.right w.here }
  | .push => { w with saved := w.here :: w.saved }
  | .pop =>
    match w.saved with
    | pose :: rest => { w with here := pose, saved := rest }
    -- Nothing is left to return to, so only the position of the symbol is noted.
    | [] => { w with unmatched := w.read :: w.unmatched }
  | .ignore => w

/-- One operation, and one symbol more that was read. -/
def step (gait : Gait σ π) (w : Walker σ π) (op : Op) : Walker σ π :=
  { w.act gait op with read := w.read + 1 }

/-- All operations of a list in turn. -/
def walk (gait : Gait σ π) (w : Walker σ π) (ops : List Op) : Walker σ π :=
  ops.foldl (step gait) w

/-- The segments in the order in which they were drawn. -/
def segments (w : Walker σ π) : List (Segment π) :=
  w.drawn.reverse

/-- The positions of the unmatched returns in the order in which they were met. -/
def skipped (w : Walker σ π) : List Nat :=
  w.unmatched.reverse

/-- No operations leave a walk where it is. -/
@[simp] theorem walk_nil (gait : Gait σ π) (w : Walker σ π) : w.walk gait [] = w := rfl

/-- The first operation of a list comes before all others. -/
@[simp] theorem walk_cons (gait : Gait σ π) (w : Walker σ π) (op : Op) (ops : List Op) :
    w.walk gait (op :: ops) = (w.step gait op).walk gait ops := rfl

/-- A walk over two lists is a walk over the first and then over the second. -/
@[simp] theorem walk_append (gait : Gait σ π) (w : Walker σ π) (first second : List Op) :
    w.walk gait (first ++ second) = (w.walk gait first).walk gait second :=
  List.foldl_append

end Walker

end Fractal
