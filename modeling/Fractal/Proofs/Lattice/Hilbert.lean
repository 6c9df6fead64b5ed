import Fractal.Figure
import Fractal.Lattice.Gait
import Fractal.Proofs.Expansion
import Fractal.Proofs.Turtle.Trail

/-!
The Hilbert curve on the square lattice.

A curve of some order fills a square on one side of its heading. It is made of four curves of the
order below, of which the outer two are mirrored, and three strokes between them. Main statement:
the curve of every order comes by each point of its square exactly once.
-/

namespace Fractal

namespace SquareLattice

/-- The two sides of a heading. -/
inductive Side where
  /-- Where a turn counter-clockwise leads. -/
  | left
  /-- Where a turn clockwise leads. -/
  | right

namespace Side

/-- The other side. -/
def opposite : Side → Side
  | left => right
  | right => left

/-- The operation that turns to a side. -/
def op : Side → Op
  | left => .turnLeft
  | right => .turnRight

/-- The heading after a turn to a side. -/
def turn : Side → LatticePoint → LatticePoint
  | left => SquareLattice.left
  | right => SquareLattice.right

/-- A turn to the other side leads to the opposite heading. -/
theorem opposite_turn (side : Side) (a : LatticePoint) :
    side.opposite.turn a = { u := -(side.turn a).u, v := -(side.turn a).v } := by
  cases side <;> simp [opposite, turn, SquareLattice.left, SquareLattice.right]

/-- Two turns to one side lead to the opposite heading. -/
theorem turn_turn (side : Side) (a : LatticePoint) :
    side.turn (side.turn a) = { u := -a.u, v := -a.v } := by
  cases side <;> simp [turn, SquareLattice.left, SquareLattice.right]

/-- A turn to the other side undoes a turn to this one. -/
@[simp] theorem opposite_turn_turn (side : Side) (a : LatticePoint) :
    side.opposite.turn (side.turn a) = a := by
  cases side <;> simp [opposite, turn]

/-- A turn to this side undoes a turn to the other one. -/
@[simp] theorem turn_opposite_turn (side : Side) (a : LatticePoint) :
    side.turn (side.opposite.turn a) = a := by
  cases side <;> simp [opposite, turn]

end Side

/-- The point so many steps ahead of a pose, and so many more to one side. -/
def cell (pose : LatticePose) (side : Side) (ahead aside : Int) : LatticePoint where
  u := pose.position.u + ahead * pose.heading.u + aside * (side.turn pose.heading).u
  v := pose.position.v + ahead * pose.heading.v + aside * (side.turn pose.heading).v

/-- A turn leads on in the new heading, and moves the pen nowhere. -/
theorem leads_turn (side : Side) {pose last : LatticePose} {ops : List Op}
    {along : List LatticePoint}
    (onward : gait.Leads { pose with heading := side.turn pose.heading } ops along last) :
    gait.Leads pose (side.op :: ops) along last := by
  -- Alone, the turn leaves its only position on the trail, which the later trail begins with.
  have turned : gait.Leads pose [side.op] [pose.position]
      { pose with heading := side.turn pose.heading } := by
    cases side <;> exact ⟨rfl, rfl, rfl⟩
  obtain ⟨closed, rfl, rfl⟩ := onward
  exact turned.append ⟨closed, rfl, rfl⟩

/-- A list that fills a square on one side, from its first corner to the next one ahead. -/
structure Fills (side : Side) (size : Nat) (ops : List Op) : Prop where
  /-- There are as many positions on a trail as points in the square. -/
  strokes : ops.count .draw + 1 = size * size
  /-- The walk ends on the last point ahead, in the heading that it began with. -/
  leads : ∀ pose, gait.Leads pose ops (gait.trail pose ops)
    { pose with position := cell pose side (size - 1) 0 }
  /-- Every point of the square is on the trail. -/
  covers : ∀ pose (ahead aside : Int), 0 ≤ ahead → ahead < size → 0 ≤ aside → aside < size →
    cell pose side ahead aside ∈ gait.trail pose ops

/-- Four lists with strokes between them, the outer two for curves mirrored to the inner ones. -/
def compose (side : Side) (inner outer : List Op) : List Op :=
  side.op :: (outer ++ .draw :: side.opposite.op :: (inner ++ .draw ::
    (inner ++ side.opposite.op :: .draw :: (outer ++ [side.op]))))

namespace Fills

variable {side : Side} {size : Nat} {ops inner outer : List Op}

/-- No stroke is needed to fill a single point. -/
theorem single (side : Side) : Fills side 1 [.ignore] where
  strokes := rfl
  leads pose := by
    have here : cell pose side ((1 : Nat) - 1) 0 = pose.position := by
      apply LatticePoint.ext <;> simp [cell]
    rw [here]
    exact ⟨rfl, rfl, rfl⟩
  covers pose ahead aside above below beside within := by
    -- The only point of this square is the one where the pen is set down.
    have first : ahead = 0 := by omega
    have second : aside = 0 := by omega
    have here : cell pose side ahead aside = pose.position := by
      apply LatticePoint.ext <;> simp [cell, first, second]
    rw [here]
    exact List.mem_cons_self

/-! ### Four quarters of a square -/

/-- Seen from the first quarter, which faces aside, ahead and aside are exchanged. -/
theorem cell_first (side : Side) (pose : LatticePose) (ahead aside : Int) :
    cell { pose with heading := side.turn pose.heading } side.opposite ahead aside =
      cell pose side aside ahead := by
  -- Ahead and aside change places.
  apply LatticePoint.ext <;> simp only [cell, Side.opposite_turn_turn] <;> ring

/-- The second quarter begins a whole size to the side. -/
theorem cell_second (side : Side) (pose : LatticePose) (size ahead aside : Int) :
    cell { pose with position := cell pose side 0 size } side ahead aside =
      cell pose side ahead (size + aside) := by
  apply LatticePoint.ext <;> simp only [cell] <;> ring

/-- The third quarter begins a whole size ahead as well. -/
theorem cell_third (side : Side) (pose : LatticePose) (size ahead aside : Int) :
    cell { pose with position := cell pose side size size } side ahead aside =
      cell pose side (size + ahead) (size + aside) := by
  apply LatticePoint.ext <;> simp only [cell] <;> ring

/-- The fourth quarter begins in the corner that is farthest ahead and faces back to the start. -/
theorem cell_fourth (side : Side) (pose : LatticePose) (size ahead aside : Int) :
    cell {
        position := cell pose side (2 * size - 1) (size - 1)
        heading := side.opposite.turn pose.heading } side.opposite ahead aside =
      cell pose side (2 * size - 1 - aside) (size - 1 - ahead) := by
  -- Its own side is reached by a second turn, so that both of its directions are reversed.
  simp only [cell, Side.turn_turn]
  simp only [Side.opposite_turn]
  apply LatticePoint.ext <;> dsimp only <;> ring

/-- A stroke from the far edge of a square leads out of it. -/
theorem forward_edge (pose : LatticePose) (side : Side) (size aside : Int) :
    gait.forward { pose with position := cell pose side (size - 1) aside } =
      { pose with position := cell pose side size aside } := by
  -- The next point ahead is the one behind the edge.
  have next : cell pose side (size - 1) aside + pose.heading = cell pose side size aside := by
    apply LatticePoint.ext <;> simp only [cell, LatticePoint.u_add, LatticePoint.v_add] <;> ring
  rw [← next]
  rfl

/-- A stroke to the other side leads back along that side. -/
theorem forward_aside (pose : LatticePose) (side : Side) (ahead size : Int) :
    gait.forward {
        position := cell pose side ahead size
        heading := side.opposite.turn pose.heading } =
      { position := cell pose side ahead (size - 1)
        heading := side.opposite.turn pose.heading } := by
  -- A stroke to the other side leads one point back towards the axis.
  have next : cell pose side ahead size + side.opposite.turn pose.heading =
      cell pose side ahead (size - 1) := by
    rw [Side.opposite_turn]
    apply LatticePoint.ext <;> simp only [cell, LatticePoint.u_add, LatticePoint.v_add] <;> ring
  rw [← next]
  rfl

/-- The curves of the four quarters follow one another, to the far corner of the whole square. -/
theorem leads_compose (same : Fills side size inner) (mirrored : Fills side.opposite size outer)
    (pose : LatticePose) :
    gait.Leads pose (compose side inner outer)
      (gait.trail { pose with heading := side.turn pose.heading } outer ++
        (gait.trail { pose with position := cell pose side 0 size } inner ++
          (gait.trail { pose with position := cell pose side size size } inner ++
            gait.trail {
              position := cell pose side (2 * size - 1) (size - 1)
              heading := side.opposite.turn pose.heading } outer)))
      { pose with position := cell pose side (2 * size - 1) 0 } := by
  -- The walk is told from the last quarter back to the first.
  have fourth : gait.Leads
      { position := cell pose side (2 * size - 1) (size - 1)
        heading := side.opposite.turn pose.heading }
      (outer ++ [side.op])
      (gait.trail
        { position := cell pose side (2 * size - 1) (size - 1)
          heading := side.opposite.turn pose.heading } outer)
      { pose with position := cell pose side (2 * size - 1) 0 } := by
    have there := mirrored.leads
      { position := cell pose side (2 * size - 1) (size - 1)
        heading := side.opposite.turn pose.heading }
    rw [cell_fourth, sub_zero, sub_self] at there
    have whole := there.append (leads_turn side (.nil _))
    rwa [List.tail_cons, List.append_nil, Side.turn_opposite_turn] at whole
  have third : gait.Leads { pose with position := cell pose side size size }
      (inner ++ side.opposite.op :: .draw :: (outer ++ [side.op]))
      (gait.trail { pose with position := cell pose side size size } inner ++
        gait.trail
          { position := cell pose side (2 * size - 1) (size - 1)
            heading := side.opposite.turn pose.heading } outer)
      { pose with position := cell pose side (2 * size - 1) 0 } := by
    have there := same.leads { pose with position := cell pose side size size }
    have edge : (size : Int) + (size - 1) = 2 * size - 1 := by ring
    rw [cell_third, add_zero, edge] at there
    -- Here the pen turns before the stroke, which leads back along the side.
    refine there.append (leads_turn side.opposite (Gait.Leads.draw ?_))
    rw [forward_aside]
    exact fourth
  refine leads_turn side ((mirrored.leads _).append_draw ?_)
  -- The first stroke leads over the edge of the first quarter into the second.
  rw [forward_edge, cell_first]
  refine leads_turn side.opposite ?_
  rw [Side.opposite_turn_turn]
  refine (same.leads _).append_draw ?_
  -- The second stroke leads on, into the third quarter.
  rw [forward_edge, cell_second, add_zero]
  exact third

/-- Four curves of one order make a curve of the next one. -/
theorem compose_fills (same : Fills side size inner) (mirrored : Fills side.opposite size outer) :
    Fills side (2 * size) (compose side inner outer) where
  strokes := by
    -- Each of the three strokes between the quarters makes up for one first position.
    have inside := same.strokes
    have outside := mirrored.strokes
    have turns : ∀ other : Side, (other.op == .draw) = false := fun other => by cases other <;> rfl
    have square : 2 * size * (2 * size) = 4 * (size * size) := by ring
    simp only [compose, List.count_cons, List.count_append, List.count_nil, turns, beq_self_eq_true]
    simp only [Bool.false_eq_true, if_false, if_true]
    omega
  leads pose := by
    -- The positions of the four quarters are the whole trail, whichever way they are written.
    have whole := same.leads_compose mirrored pose
    rw [← whole.trail] at whole
    push_cast
    exact whole
  covers pose ahead aside above below beside within := by
    rw [(same.leads_compose mirrored pose).trail]
    simp only [List.mem_append]
    push_cast at below within
    -- Each point of the square is one of the quarter that it lies in.
    rcases Int.lt_or_le ahead size with near | far
    · rcases Int.lt_or_le aside size with close | wide
      -- Near and close: the first quarter, which is mirrored.
      · left
        rw [← cell_first]
        exact mirrored.covers _ _ _ beside close above near
      -- Near and wide: the second.
      · right; left
        have place : cell pose side ahead aside = cell pose side ahead (size + (aside - size)) := by
          rw [add_sub_cancel]
        rw [place, ← cell_second]
        exact same.covers _ _ _ above near (by omega) (by omega)
    · rcases Int.lt_or_le aside size with close | wide
      -- Far and close: the last, which is run through backwards.
      · right; right; right
        have place : cell pose side ahead aside = cell pose side
            (2 * size - 1 - (2 * size - 1 - ahead)) (size - 1 - (size - 1 - aside)) := by
          rw [sub_sub_cancel, sub_sub_cancel]
        rw [place, ← cell_fourth]
        exact mirrored.covers _ _ _ (by omega) (by omega) (by omega) (by omega)
      -- Far and wide: the third.
      · right; right; left
        have place : cell pose side ahead aside =
            cell pose side (size + (ahead - size)) (size + (aside - size)) := by
          rw [add_sub_cancel, add_sub_cancel]
        rw [place, ← cell_third]
        exact same.covers _ _ _ (by omega) (by omega) (by omega) (by omega)

end Fills

/-! ### The curves of the catalogue -/

/-- The symbol that turns to a side. -/
def Side.turnSymbol : Side → Char
  | left => '+'
  | right => '-'

/-- The symbol that grows into a curve on a side. -/
def Side.symbol : Side → Char
  | left => 'Y'
  | right => 'X'

/-- The operations of the curve of some order on a side. -/
def hilbert (side : Side) (order : Nat) : List Op :=
  SymbolTable.standard.ops (Figure.hilbertCurve.grammar.rounds order [side.symbol])

/-- A curve is replaced by curves on both sides, with the turns and strokes between them. -/
theorem replace_symbol (side : Side) :
    Figure.hilbertCurve.grammar.replace side.symbol =
      [side.turnSymbol, side.opposite.symbol, 'F', side.opposite.turnSymbol, side.symbol, 'F',
        side.symbol, side.opposite.turnSymbol, 'F', side.opposite.symbol, side.turnSymbol] := by
  rw [Grammar.replace_eq_find?]
  cases side <;> rfl

/-- A stroke stays a stroke in every round. -/
theorem rounds_stroke (n : Nat) : Figure.hilbertCurve.grammar.rounds n ['F'] = ['F'] :=
  Grammar.rounds_of_replace_self (by rw [Grammar.replace_eq_find?]; rfl) n

/-- A turn stays a turn in every round. -/
theorem rounds_turnSymbol (side : Side) (n : Nat) :
    Figure.hilbertCurve.grammar.rounds n [side.turnSymbol] = [side.turnSymbol] := by
  refine Grammar.rounds_of_replace_self ?_ n
  -- Turns have no rule.
  rw [Grammar.replace_eq_find?]
  cases side <;> rfl

/-- The customary operation of a turn's symbol is that turn. -/
theorem ops_turnSymbol (side : Side) : SymbolTable.standard.ops [side.turnSymbol] = [side.op] := by
  cases side <;> rfl

/-- A curve is made of four curves of the order below. -/
theorem hilbert_succ (side : Side) (order : Nat) :
    hilbert side (order + 1) =
      compose side (hilbert side order) (hilbert side.opposite order) := by
  have stroke : SymbolTable.standard.ops ['F'] = [.draw] := rfl
  -- The later rounds only grow the four curve symbols of the first one.
  rw [hilbert, Grammar.rounds_succ_singleton, replace_symbol]
  simp only [List.flatMap_cons, List.flatMap_nil, List.append_nil, rounds_stroke,
    rounds_turnSymbol, SymbolTable.ops_append, ops_turnSymbol, stroke]
  rfl

/-- The curve of every order fills the square on its side. -/
theorem hilbert_fills (side : Side) (order : Nat) :
    Fills side (2 ^ order) (hilbert side order) := by
  -- Both sides are needed, since the outer quarters are curves on the other side.
  induction order generalizing side with
  | zero => cases side <;> exact Fills.single _
  | succ order ih =>
    rw [hilbert_succ, Nat.pow_succ, Nat.mul_comm]
    exact (ih side).compose_fills (ih side.opposite)

/-! ### The points of the grid -/

/-- The points of a square that lies to the right of the first direction. -/
def grid (size : Nat) : List LatticePoint :=
  ((List.range size) ×ˢ (List.range size)).map fun place =>
    { u := place.1, v := -(place.2 : Int) }

/-- A point lies in the grid if its coordinates are within the size. -/
theorem mem_grid {size : Nat} {q : LatticePoint} :
    q ∈ grid size ↔ 0 ≤ q.u ∧ q.u < size ∧ -(size : Int) < q.v ∧ q.v ≤ 0 := by
  constructor
  -- A place of the product has two indices below the size.
  · intro member
    obtain ⟨⟨ahead, aside⟩, inside, rfl⟩ := List.mem_map.1 member
    rw [List.mem_product, List.mem_range, List.mem_range] at inside
    dsimp only at inside ⊢
    omega
  -- The place in the product is read back from the coordinates, the second one turned around.
  · intro ⟨left, right, low, high⟩
    refine List.mem_map.2 ⟨(q.u.toNat, (-q.v).toNat), ?_, ?_⟩
    · rw [List.mem_product, List.mem_range, List.mem_range]
      omega
    · apply LatticePoint.ext <;> dsimp only <;> omega

/-- No point stands twice in the grid. -/
theorem nodup_grid (size : Nat) : (grid size).Nodup := by
  -- Different places of the product have different coordinates.
  refine List.Nodup.map ?_ (List.nodup_range.product List.nodup_range)
  intro ⟨ahead, aside⟩ ⟨other, beside⟩ same
  have first := congrArg LatticePoint.u same
  have second := congrArg LatticePoint.v same
  dsimp only at first second
  have ahead_eq : ahead = other := by omega
  have aside_eq : aside = beside := by omega
  rw [ahead_eq, aside_eq]

/-- There are as many points in the grid as in a square of its size. -/
theorem length_grid (size : Nat) : (grid size).length = size * size := by
  rw [grid, List.length_map, List.length_product, List.length_range]

/-- What fills the square to the right of the first direction comes by each grid point once. -/
theorem Fills.trail_perm_grid {size : Nat} {ops : List Op} (fills : Fills .right size ops) :
    (gait.trail .home ops).Perm (grid size) := by
  -- Every grid point is on the trail, and the trail is no longer than the grid.
  have covered : grid size ⊆ gait.trail .home ops := by
    intro q member
    obtain ⟨left, right, low, high⟩ := mem_grid.1 member
    have place : cell .home .right q.u (-q.v) = q := by
      apply LatticePoint.ext <;>
        simp [cell, LatticePose.home, LatticePoint.zero, LatticePoint.east, Side.turn,
          SquareLattice.right]
    rw [← place]
    exact fills.covers .home q.u (-q.v) left right (by omega) (by omega)
  -- A list that holds every element of another of its own length has none of them twice.
  have size_eq : (gait.trail .home ops).length = (grid size).length := by
    rw [gait.length_trail, fills.strokes, length_grid]
  exact ((List.subperm_of_subset (nodup_grid size) covered).perm_of_length_le size_eq.le).symm

/--
The catalogue's Hilbert curve comes by every point of its grid exactly once, at every depth.

Its turns are quarter turns. The pen is set down at the origin, in one corner of the grid, and ends
in the next corner along the first direction, with the heading that it began with.
-/
theorem hilbert_visits_grid (depth : Int32) (nonneg : 0 ≤ depth) :
    Figure.hilbertCurve.grammar.angle = 90 ∧
    ∃ word, (Figure.hilbertCurve.grammar.expand depth).outcome = .ok word ∧
      let order := depth.toInt.toNat
      let ops := SymbolTable.standard.ops word
      let visited := gait.trail .home ops
      visited.length = 4 ^ order ∧ visited.Nodup ∧
        (∀ q : LatticePoint, q ∈ visited ↔
          0 ≤ q.u ∧ q.u ≤ 2 ^ order - 1 ∧ -(2 ^ order - 1) ≤ q.v ∧ q.v ≤ 0) ∧
        gait.arrive .home ops =
          { position := { u := 2 ^ order - 1, v := 0 }, heading := .east } := by
  -- The word is that of as many rounds as the depth says, grown from the axiom.
  refine ⟨rfl, _, by rw [Grammar.expand_of_nonneg _ (Int32.not_lt.2 nonneg)], ?_⟩
  intro order ops visited
  -- The axiom is the curve on the right side, so that the square extends to the right.
  have fills : Fills .right (2 ^ order) ops := hilbert_fills .right order
  have perm : visited.Perm (grid (2 ^ order)) := fills.trail_perm_grid
  refine ⟨?_, perm.nodup_iff.2 (nodup_grid _), fun q => ?_, ?_⟩
  · rw [perm.length_eq, length_grid, ← Nat.mul_pow]
  -- The square and the grid have the same points, with bounds written in two ways.
  · rw [perm.mem_iff, mem_grid]
    push_cast
    omega
  -- The last point is the far corner on the axis, with the heading of the start.
  · rw [(fills.leads _).arrive]
    have corner : cell .home .right (((2 ^ order : Nat) : Int) - 1) 0 =
        { u := 2 ^ order - 1, v := 0 } := by
      apply LatticePoint.ext <;>
        simp [cell, LatticePose.home, LatticePoint.zero, LatticePoint.east]
    rw [corner]
    rfl

/-- The curve of the second order comes by sixteen points, some of them on the far side. -/
theorem hilbert_visits_grid_second :
    0 ≤ (2 : Int32) ∧ Figure.hilbertCurve.grammar.angle = 90 ∧
      ∃ word, (Figure.hilbertCurve.grammar.expand 2).outcome = .ok word ∧
        let ops := SymbolTable.standard.ops word
        (gait.trail .home ops).length = 16 ∧ (gait.trail .home ops).Nodup ∧
          { u := 1, v := -3 } ∈ gait.trail .home ops ∧
          gait.arrive .home ops = { position := { u := 3, v := 0 }, heading := .east } := by
  have nonneg : 0 ≤ (2 : Int32) := by decide
  have order : (2 : Int32).toInt.toNat = 2 := by decide
  obtain ⟨quarter, word, expanded, size, once, points, arrives⟩ := hilbert_visits_grid 2 nonneg
  -- The four by four grid is visited, and one of its points is looked up.
  rw [order] at size points arrives
  exact ⟨nonneg, quarter, word, expanded, size, once, (points _).2 (by decide), arrives⟩

end SquareLattice

end Fractal
