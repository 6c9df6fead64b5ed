import Fractal.Turtle.Walker

/-!
Exact walks on the lattices of the two angles that a turtle needs no rounding for.

On a lattice a heading is the displacement of one step, so a turn is a rotation of displacements.
-/

namespace Fractal

/-- A whole combination of the two directions that span a lattice. -/
structure LatticePoint where
  /-- How often the first direction is taken. -/
  u : Int
  /-- How often the second direction is taken. -/
  v : Int
  deriving DecidableEq, Repr

namespace LatticePoint

/-- Lattice points are added direction by direction. -/
instance : Add LatticePoint := ⟨fun a b => { u := a.u + b.u, v := a.v + b.v }⟩

/-- The point that takes neither direction. -/
def zero : LatticePoint := { u := 0, v := 0 }

/-- The first direction itself. -/
def east : LatticePoint := { u := 1, v := 0 }

/-- Two lattice points that take both directions equally often are the same. -/
@[ext] theorem ext {a b : LatticePoint} (u : a.u = b.u) (v : a.v = b.v) : a = b := by
  cases a; cases b; cases u; cases v; rfl

/-- The first direction counts in a sum as often as in both parts. -/
@[simp] theorem u_add (a b : LatticePoint) : (a + b).u = a.u + b.u := rfl

/-- The second direction counts in a sum as often as in both parts. -/
@[simp] theorem v_add (a b : LatticePoint) : (a + b).v = a.v + b.v := rfl

end LatticePoint

/-- A position on a lattice, and the displacement of a step from there. -/
structure LatticePose where
  /-- The position. -/
  position : LatticePoint
  /-- The displacement of one step. -/
  heading : LatticePoint
  deriving DecidableEq, Repr

namespace LatticePose

/-- The pose that looks along the first direction from the point that takes neither. -/
def home : LatticePose := { position := .zero, heading := .east }

/-- The pose one step ahead. -/
def forward (p : LatticePose) : LatticePose :=
  { p with position := p.position + p.heading }

/-- The gait of unit steps whose turns rotate the heading. -/
def gait (left right : LatticePoint → LatticePoint) : Gait LatticePose LatticePoint where
  position := position
  forward := forward
  -- A turn is taken on the spot.
  left := fun p => { p with heading := left p.heading }
  right := fun p => { p with heading := right p.heading }

end LatticePose

/-! ### The square lattice, whose directions are a quarter turn apart -/

namespace SquareLattice

/-- A quarter turn counter-clockwise takes east to north and north to west. -/
def left (a : LatticePoint) : LatticePoint := { u := -a.v, v := a.u }

/-- A quarter turn clockwise takes north to east and east to south. -/
def right (a : LatticePoint) : LatticePoint := { u := a.v, v := -a.u }

/-- Unit steps with quarter turns. -/
def gait : Gait LatticePose LatticePoint := LatticePose.gait left right

/-- Turning right undoes turning left. -/
@[simp] theorem right_left (a : LatticePoint) : right (left a) = a := by
  simp [left, right]

/-- Turning left undoes turning right. -/
@[simp] theorem left_right (a : LatticePoint) : left (right a) = a := by
  simp [left, right]

end SquareLattice

/-! ### The triangular lattice, whose directions are a sixth of a full turn apart -/

namespace TriangularLattice

/-- A sixth of a turn counter-clockwise takes the second direction to their difference. -/
def left (a : LatticePoint) : LatticePoint := { u := -a.v, v := a.u + a.v }

/-- A sixth of a turn clockwise takes the second direction to the first. -/
def right (a : LatticePoint) : LatticePoint := { u := a.u + a.v, v := -a.u }

/-- Unit steps with turns by a sixth of a full turn. -/
def gait : Gait LatticePose LatticePoint := LatticePose.gait left right

/-- Turning right undoes turning left. -/
@[simp] theorem right_left (a : LatticePoint) : right (left a) = a := by
  apply LatticePoint.ext <;> simp only [left, right] <;> omega

/-- Turning left undoes turning right. -/
@[simp] theorem left_right (a : LatticePoint) : left (right a) = a := by
  apply LatticePoint.ext <;> simp only [left, right] <;> omega

end TriangularLattice

end Fractal
