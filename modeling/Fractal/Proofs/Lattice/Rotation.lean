import Fractal.Lattice.Gait
import Fractal.Proofs.Turtle.Connection

/-!
Rotations of the triangular lattice, and the strokes of a pen that turns by sixths.

The lattice is made of the whole combinations of one and a primitive sixth root of unity, and a turn
multiplies by that root. Main statement: every stroke is the power of the root that the turns before
it give, and the pen is at the sum of its strokes.
-/

namespace Fractal

namespace LatticePoint

/-- The point that takes neither direction adds nothing. -/
instance : Zero LatticePoint := ⟨zero⟩

/-- The opposite of a point takes both directions backwards. -/
instance : Neg LatticePoint := ⟨fun a => { u := -a.u, v := -a.v }⟩

/-- Lattice points are subtracted direction by direction. -/
instance : Sub LatticePoint := ⟨fun a b => { u := a.u - b.u, v := a.v - b.v }⟩

/-- A point so many times takes both directions so many times as often. -/
instance : SMul Nat LatticePoint := ⟨fun n a => { u := n * a.u, v := n * a.v }⟩

/-- A point so many times forwards or backwards. -/
instance : SMul Int LatticePoint := ⟨fun k a => { u := k * a.u, v := k * a.v }⟩

/-- How often both directions are taken. -/
def coordinates (a : LatticePoint) : Int × Int := (a.u, a.v)

/-- Coordinates tell lattice points apart. -/
theorem coordinates_injective : Function.Injective coordinates :=
  fun _ _ same => LatticePoint.ext (congrArg Prod.fst same) (congrArg Prod.snd same)

/-- Lattice points form a group, as their coordinates do. -/
instance : AddCommGroup LatticePoint :=
  -- Each law holds of the coordinates, and these tell points apart.
  coordinates_injective.addCommGroup coordinates rfl (fun _ _ => rfl) (fun _ => rfl)
    (fun _ _ => rfl) (fun a n => Prod.ext (nsmul_eq_mul n a.u).symm (nsmul_eq_mul n a.v).symm)
    (fun a k => Prod.ext (zsmul_eq_mul a.u k).symm (zsmul_eq_mul a.v k).symm)

/-- The neutral point takes the first direction not at all. -/
@[simp] theorem u_zero : (0 : LatticePoint).u = 0 := rfl

/-- The neutral point takes the second direction not at all. -/
@[simp] theorem v_zero : (0 : LatticePoint).v = 0 := rfl

end LatticePoint

/-- The displacement from the start of a stroke to its end. -/
def Segment.displacement (segment : Segment LatticePoint) : LatticePoint :=
  segment.stop - segment.start

namespace Op

/-- How many turns counter-clockwise there are more than clockwise ones. -/
def turns (ops : List Op) : Int :=
  (ops.count turnLeft : Int) - ops.count turnRight

/-- The turns of two lists add up. -/
theorem turns_append (first second : List Op) :
    turns (first ++ second) = turns first + turns second := by
  simp only [turns, List.count_append]
  omega

/-- Whether an operation neither leaves a gap between segments nor knows of saved poses. -/
def isPlain : Op → Bool
  | draw | turnLeft | turnRight | ignore => true
  | move | push | pop => false

end Op

namespace TriangularLattice

/-- A sixth of a turn counter-clockwise, which one clockwise undoes. -/
def rotation : Equiv.Perm LatticePoint where
  toFun := left
  invFun := right
  left_inv := right_left
  right_inv := left_right

/-- A direction lies between those a sixth of a turn to its sides. -/
theorem left_add_right (a : LatticePoint) : left a + right a = a := by
  apply LatticePoint.ext <;>
    simp only [left, right, LatticePoint.u_add, LatticePoint.v_add] <;> ring

/-- Three directions that are a third of a full turn apart add up to nothing. -/
theorem thirds_sum (a : LatticePoint) : right (right a) + a + left (left a) = 0 := by
  apply LatticePoint.ext <;>
    simp only [left, right, LatticePoint.u_add, LatticePoint.v_add, LatticePoint.u_zero,
      LatticePoint.v_zero] <;> ring

/-- The step after so many sixths of a turn from the first direction. -/
def unit (turns : Int) : LatticePoint :=
  (rotation ^ turns) .east

/-- Without a turn, a step leads along the first direction. -/
@[simp] theorem unit_zero : unit 0 = .east := rfl

/-- One turn more turns the step counter-clockwise. -/
theorem unit_add_one (turns : Int) : unit (turns + 1) = left (unit turns) := by
  rw [unit, add_comm, zpow_one_add]
  rfl

/-- One turn less turns the step clockwise. -/
theorem unit_sub_one (turns : Int) : unit (turns - 1) = right (unit turns) := by
  -- A turn to the right undoes one to the left.
  rw [← sub_add_cancel turns 1, unit_add_one, right_left, add_sub_cancel_right]

/-! ### The lattice of a root of unity -/

section Value

variable {K : Type} [Field K] (root : K)

/-- The number that a point stands for, if the second direction stands for a root of unity. -/
def value : LatticePoint →+ K where
  toFun a := a.u + a.v * root
  map_zero' := by simp
  map_add' a b := by
    simp only [LatticePoint.u_add, LatticePoint.v_add, Int.cast_add]
    ring

variable {root}

/-- A primitive sixth root of unity is one more than its square. -/
theorem sq_eq_sub_one (primitive : IsPrimitiveRoot root 6) : root ^ 2 = root - 1 := by
  -- It is a zero of the sixth cyclotomic polynomial.
  have zero := primitive.isRoot_cyclotomic (by decide)
  rw [Polynomial.cyclotomic_six, Polynomial.IsRoot] at zero
  simp only [Polynomial.eval_add, Polynomial.eval_sub, Polynomial.eval_pow, Polynomial.eval_X,
    Polynomial.eval_one] at zero
  linear_combination zero

/-- A sixth of a turn counter-clockwise multiplies by the root. -/
theorem value_left (primitive : IsPrimitiveRoot root 6) (a : LatticePoint) :
    value root (left a) = root * value root a := by
  simp only [value, left, AddMonoidHom.coe_mk, ZeroHom.coe_mk, Int.cast_add, Int.cast_neg]
  -- The square of the root has to be replaced once.
  linear_combination -(a.v : K) * sq_eq_sub_one primitive

/-- The step after some turns stands for that power of the root. -/
theorem value_unit (primitive : IsPrimitiveRoot root 6) (turns : Int) :
    value root (unit turns) = root ^ turns := by
  have nonzero : root ≠ 0 := primitive.ne_zero (by decide)
  -- The powers go both ways from the step without a turn.
  induction turns with
  | zero => simp [value, LatticePoint.east]
  | succ turns ih => rw [unit_add_one, value_left primitive, ih, zpow_add_one₀ nonzero, mul_comm]
  | pred turns ih =>
    have back := value_left primitive (unit (-turns - 1))
    rw [unit_sub_one, left_right, ih] at back
    rw [unit_sub_one, zpow_sub_one₀ nonzero, back]
    field_simp

end Value

/-! ### The strokes of a walk -/

/-- The steps of the drawing operations before some position, each turned as far as the pen is. -/
def strides (ops : List Op) (now : Nat) : List LatticePoint :=
  (Op.draws ops now).map fun index => unit (Op.turns (ops.take index))

/-- A drawing operation adds the step that the turns before it give. -/
theorem strides_succ {ops : List Op} {now : Nat} {op : Op} (here : ops[now]? = some op) :
    strides ops (now + 1) =
      strides ops now ++ if op = .draw then [unit (Op.turns (ops.take now))] else [] := by
  rw [strides, strides, Op.draws_succ here, List.map_append]
  -- One more stride where the op draws, and none elsewhere.
  by_cases drawn : op = .draw
  · simp [drawn]
  · simp [drawn]

/-- A walk at some position whose pose and segments are those that turns and strokes give. -/
structure Strides (ops : List Op) (now : Nat) (w : Walker LatticePose LatticePoint) : Prop where
  /-- The heading is the first direction, turned as often as the pen has turned. -/
  heading : w.here.heading = unit (Op.turns (ops.take now))
  /-- The pen is at the sum of its strokes. -/
  position : w.here.position = (strides ops now).sum
  /-- Every segment is the stroke of its drawing operation. -/
  displacements : w.segments.map Segment.displacement = strides ops now
  /-- The pen rests where it came to last. -/
  rests : (Segment.places 0 w.segments).getLast? = some w.here.position

namespace Strides

variable {ops : List Op} {now : Nat} {w : Walker LatticePose LatticePoint}

/-- A walk that has read nothing has made no stroke. -/
theorem start (ops : List Op) : Strides ops 0 (.start .home) := ⟨rfl, rfl, rfl, rfl⟩

/-- The heading turns with the pen. -/
theorem heading_step (strides : Strides ops now w) {op : Op} (here : ops[now]? = some op)
    (plain : op.isPlain) :
    (w.step gait op).here.heading = unit (Op.turns (ops.take (now + 1))) := by
  -- The turns up to the next position are those so far and that of the op.
  have taken : Op.turns (ops.take (now + 1)) = Op.turns (ops.take now) + Op.turns [op] := by
    rw [List.take_add_one, here, Op.turns_append]
    rfl
  rw [taken]
  -- Only a turn changes the heading, and only turns are counted.
  cases op with
  | draw => exact strides.heading.trans (congrArg unit (add_zero _).symm)
  | turnLeft =>
    have counted : Op.turns [.turnLeft] = 1 := rfl
    rw [counted, unit_add_one, ← strides.heading]
    rfl
  | turnRight =>
    have counted : Op.turns [.turnRight] = -1 := rfl
    rw [counted, ← sub_eq_add_neg, unit_sub_one, ← strides.heading]
    rfl
  | ignore => exact strides.heading.trans (congrArg unit (add_zero _).symm)
  | _ => cases plain

/-- An operation that turns, strokes or does nothing keeps the account right. -/
theorem step (strides : Strides ops now w) {op : Op} (here : ops[now]? = some op)
    (plain : op.isPlain) : Strides ops (now + 1) (w.step gait op) := by
  have turned := strides.heading_step here plain
  obtain ⟨heading, position, displacements, rests⟩ := strides
  have segments := w.segments_step gait op
  have added := strides_succ here
  by_cases drawn : op = .draw
  -- A stroke moves the pen by the heading, which is the next stride.
  · subst drawn
    rw [if_pos rfl] at segments added
    refine ⟨turned, ?_, ?_, ?_⟩
    · rw [added, List.sum_append, List.sum_singleton, ← position, ← heading]
      rfl
    -- The end of the segment is ahead of its start by the heading.
    · rw [segments, List.map_append, displacements, added, ← heading]
      exact congrArg (fun stroke => TriangularLattice.strides ops now ++ [stroke])
        (add_sub_cancel_left _ _)
    -- The pen is left at the stop of the newest segment.
    · rw [segments, Segment.places, List.map_append, ← List.cons_append]
      exact List.getLast?_concat
  -- Nothing else moves the pen or draws.
  · rw [if_neg drawn, List.append_nil] at segments added
    have still : (w.step gait op).here.position = w.here.position := by
      cases op with
      | draw => exact absurd rfl drawn
      | turnLeft | turnRight | ignore => rfl
      | _ => cases plain
    exact ⟨turned, by rw [added, still, position], by rw [segments, added, displacements],
      by rw [segments, still, rests]⟩

end Strides

/-- At the end of a list without gaps and branches, the pen is at the sum of all its strokes. -/
theorem walk_strides {ops : List Op} (plain : ∀ op ∈ ops, op.isPlain) :
    Strides ops ops.length ((Walker.start .home).walk gait ops) :=
  -- Turns are counted in the whole list, up to the position of the walk.
  Walker.walk_induction (Strides ops) (.start ops) fun _ op here strides =>
    strides.step here (plain op (List.mem_of_getElem? here))

/-- If a pen that leaves no gaps comes back, its last segment ends where the first one begins. -/
theorem segments_close {ops : List Op} (plain : ∀ op ∈ ops, op.isPlain) (draws : .draw ∈ ops)
    (closed : (strides ops ops.length).sum = 0) :
    let segments := ((Walker.start .home).walk gait ops).segments
    ∃ first last, segments.head? = some first ∧ segments.getLast? = some last ∧
      last.stop = first.start := by
  intro segments
  have account := walk_strides plain
  have connected : Walker.Connected gait 0 ((Walker.start .home).walk gait ops) :=
    (Walker.Connected.start gait .home).walk ⟨fun _ => rfl, fun _ => rfl⟩
      fun moves => by cases plain _ moves
  -- There is a segment, because there is a stroke.
  have drawn : segments ≠ [] := by
    refine List.ne_nil_of_length_pos ?_
    rw [Walker.length_segments_walk]
    exact List.count_pos_iff.2 draws
  refine ⟨segments.head drawn, segments.getLast drawn, List.head?_eq_some_head drawn,
    List.getLast?_eq_some_getLast drawn, ?_⟩
  -- Nothing but the origin is a place before the first segment.
  have begins := connected.linked 0 (segments.head drawn)
    (by rw [← List.head?_eq_getElem?, List.head?_eq_some_head drawn])
  rw [List.take_zero, Segment.places, List.map_nil, List.mem_singleton] at begins
  -- The last segment stops where the walk ends, which is the origin again.
  have rests := account.rests
  rw [account.position, closed, Segment.places, List.getLast?_cons, List.getLast?_map,
    List.getLast?_eq_some_getLast drawn] at rests
  rw [begins]
  exact Option.some.inj rests

/-- The numbers of the strokes add up to that of their sum. -/
theorem sum_strides {K : Type} [Field K] {root : K} (primitive : IsPrimitiveRoot root 6)
    (ops : List Op) (now : Nat) :
    ((Op.draws ops now).map fun index => root ^ Op.turns (ops.take index)).sum =
      value root (strides ops now).sum := by
  -- A sum of steps stands for the sum of what each of them stands for.
  rw [map_list_sum, strides, List.map_map]
  refine congrArg List.sum (List.map_congr_left fun index _ => ?_)
  exact (value_unit primitive _).symm

end TriangularLattice

end Fractal
