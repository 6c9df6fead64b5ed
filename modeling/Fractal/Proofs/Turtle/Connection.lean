import Fractal.Proofs.Turtle.Continuation
import Fractal.Proofs.Turtle.Replay

/-!
Drawings that hang together.

A return takes the pen to a pose that was saved at a place where the pen had been. Main statement:
without steps that leave no segment, every segment starts where the pen was set down or where an
earlier segment ends, and between two strokes the pen rests unless it moves or returns.
-/

namespace Fractal

/-- Turns of a gait change where a pose looks, not where it is. -/
structure Gait.TurnsInPlace {σ π : Type} (gait : Gait σ π) : Prop where
  /-- A turn counter-clockwise leaves the position alone. -/
  left : ∀ pose, gait.position (gait.left pose) = gait.position pose
  /-- A turn clockwise leaves the position alone. -/
  right : ∀ pose, gait.position (gait.right pose) = gait.position pose

/-- The segment that one step forward draws. -/
def Gait.stroke {σ π : Type} (gait : Gait σ π) (pose : σ) : Segment π :=
  ⟨gait.position pose, gait.position (gait.forward pose)⟩

/-- A turtle in the plane turns in place. -/
theorem Pose.gait_turnsInPlace (step angle : Float) : (gait step angle).TurnsInPlace :=
  ⟨fun _ => rfl, fun _ => rfl⟩

namespace Segment

variable {π : Type} {origin : π} {segments : List (Segment π)}

/-- The places that a pen has come to: where it was set down, and where its segments end. -/
def places (origin : π) (segments : List (Segment π)) : List π :=
  origin :: segments.map stop

/-- Segments each of which starts at a place that the pen had come to before it. -/
def Linked (origin : π) (segments : List (Segment π)) : Prop :=
  ∀ index segment, segments[index]? = some segment →
    segment.start ∈ places origin (segments.take index)

/-- A further segment takes no place away. -/
theorem mem_places_append {place : π} (reached : place ∈ places origin segments)
    (later : List (Segment π)) : place ∈ places origin (segments ++ later) := by
  rw [places, List.map_append, ← List.cons_append]
  exact List.mem_append_left _ reached

/-- A segment that starts at a place reached before may be added. -/
theorem Linked.concat (linked : Linked origin segments) {segment : Segment π}
    (starts : segment.start ∈ places origin segments) : Linked origin (segments ++ [segment]) := by
  intro index other found
  rcases Nat.lt_trichotomy index segments.length with before | rfl | past
  -- The earlier segments have the same ones before them as they had.
  · rw [List.getElem?_append_left before] at found
    rw [List.take_append_of_le_length (Nat.le_of_lt before)]
    exact linked index other found
  -- The new segment has all the others before it.
  · rw [List.getElem?_concat_length] at found
    cases found
    rwa [List.take_left]
  -- There is no segment behind the new one.
  · rw [List.getElem?_eq_none (by rw [List.length_append, List.length_singleton]; omega)] at found
    cases found

end Segment

namespace Walker

open Segment (places Linked)

variable {σ π : Type} {gait : Gait σ π} {w : Walker σ π}

/-- A walk whose segments are linked, and whose pen and saved poses are at places it has come to. -/
structure Connected (gait : Gait σ π) (origin : π) (w : Walker σ π) : Prop where
  /-- Every segment starts at an earlier place. -/
  linked : Linked origin w.segments
  /-- The pen is at such a place. -/
  here : gait.position w.here ∈ places origin w.segments
  /-- A return can only lead to such a place. -/
  saved : ∀ pose ∈ w.saved, gait.position pose ∈ places origin w.segments

namespace Connected

variable {origin : π}

/-- A walk that has read nothing is at the place where the pen was set down. -/
theorem start (gait : Gait σ π) (pose : σ) :
    Connected gait (gait.position pose) (.start pose) where
  linked index segment found := by cases found
  here := List.mem_cons_self
  saved pose member := by cases member

/-- Every operation but a step without a segment keeps a walk connected. -/
theorem step (inPlace : gait.TurnsInPlace) (connected : Connected gait origin w) {op : Op}
    (draws : op ≠ .move) : Connected gait origin (w.step gait op) := by
  obtain ⟨linked, here, saved⟩ := connected
  -- A place that was reached stays reached, so only the pen and the stack have to be looked at.
  have segments := w.segments_step gait op
  cases op with
  | draw =>
    rw [if_pos rfl] at segments
    refine ⟨segments ▸ linked.concat here, ?_, fun pose member => ?_⟩
    -- The pen has come to the end of the new segment, which is one more place.
    · rw [segments, places, List.map_append, List.map_singleton]
      exact List.mem_cons_of_mem _ (List.mem_append_right _ List.mem_cons_self)
    · rw [segments]
      exact Segment.mem_places_append (saved pose member) _
  | move => exact absurd rfl draws
  -- A turn leaves the pen where it is.
  | turnLeft => exact ⟨linked, by rw [← inPlace.left] at here; exact here, saved⟩
  | turnRight => exact ⟨linked, by rw [← inPlace.right] at here; exact here, saved⟩
  -- The pose that is saved is the one where the pen is.
  | push =>
    refine ⟨linked, here, fun pose member => ?_⟩
    rcases List.mem_cons.1 member with rfl | deeper
    · exact here
    · exact saved pose deeper
  | pop =>
    -- A return that finds nothing changes nothing.
    cases stack : w.saved with
    | nil =>
      rw [step_pop_nil gait stack]
      exact ⟨linked, here, saved⟩
    -- The pose that is taken back was saved at a place reached by then.
    | cons pose rest =>
      rw [stack] at saved
      rw [step_pop_cons gait stack]
      exact ⟨linked, saved pose List.mem_cons_self,
        fun other member => saved other (List.mem_cons_of_mem _ member)⟩
  | ignore => exact ⟨linked, here, saved⟩

/-- Without steps that leave no segment, a walk stays connected to its end. -/
theorem walk (inPlace : gait.TurnsInPlace) (connected : Connected gait origin w) {ops : List Op}
    (draws : Op.move ∉ ops) : Connected gait origin (w.walk gait ops) := by
  -- The invariant goes from each walker to the next one, so the walker is generalized.
  induction ops generalizing w with
  | nil => exact connected
  | cons op rest ih =>
    obtain ⟨first, later⟩ := not_or.1 (mt List.mem_cons.2 draws)
    exact ih (connected.step inPlace (Ne.symm first)) later

end Connected

/-! ### Between two strokes -/

/-- The segments drawn by some position are the first ones of the whole walk. -/
theorem segments_take_prefix (gait : Gait σ π) (w : Walker σ π) (ops : List Op) (index : Nat) :
    (w.walk gait (ops.take index)).segments <+: (w.walk gait ops).segments := by
  -- The whole walk goes on from where the part of it ends.
  have split : w.walk gait ops =
      (w.walk gait (ops.take index)).walk gait (ops.drop index) := by
    rw [← walk_append, List.take_append_drop]
  rw [split, walk_eq_atop gait (w.walk gait (ops.take index)), segments_atop]
  exact List.prefix_append _ _

/-- An operation that takes the pen nowhere: no step, and no return that finds a saved pose. -/
structure Rests (w : Walker σ π) (op : Op) : Prop where
  /-- No segment is drawn. -/
  draws : op ≠ .draw
  /-- No step is made without one. -/
  moves : op ≠ .move
  /-- A return finds nothing saved. -/
  returns : op = .pop → w.saved = []

/-- An operation that takes the pen nowhere leaves it where it is. -/
theorem Rests.position_step (inPlace : gait.TurnsInPlace) {op : Op} (rests : w.Rests op) :
    gait.position (w.step gait op).here = gait.position w.here := by
  -- Of the ops that remain, two turn and the others leave the pose alone.
  cases op with
  | draw => exact absurd rfl rests.draws
  | move => exact absurd rfl rests.moves
  | turnLeft => exact inPlace.left w.here
  | turnRight => exact inPlace.right w.here
  | push => rfl
  | pop => rw [step_pop_nil gait (rests.returns rfl)]
  | ignore => rfl

/-- While no operation takes the pen anywhere, it stays where it is and draws nothing. -/
theorem rests_take (inPlace : gait.TurnsInPlace) {ops : List Op} {first last : Nat}
    (rests : ∀ index op, first ≤ index → index < last → ops[index]? = some op →
      (w.walk gait (ops.take index)).Rests op)
    (within : last ≤ ops.length) {now : Nat} (after : first ≤ now) (before : now ≤ last) :
    gait.position (w.walk gait (ops.take now)).here =
        gait.position (w.walk gait (ops.take first)).here ∧
      (w.walk gait (ops.take now)).segments = (w.walk gait (ops.take first)).segments := by
  -- Nothing moves the pen from the first position up to the current one.
  induction now, after using Nat.le_induction with
  | base => exact ⟨rfl, rfl⟩
  | succ now after ih =>
    obtain ⟨position, segments⟩ := ih (by omega)
    have here : ops[now]? = some ops[now] := List.getElem?_eq_getElem (by omega)
    have still := rests now ops[now] after (by omega) here
    rw [walk_take_succ gait w here, still.position_step inPlace, segments_step, if_neg still.draws,
      List.append_nil]
    exact ⟨position, segments⟩

/-- Of two strokes with nothing between them that takes the pen away, one begins at the other. -/
theorem next_stroke (inPlace : gait.TurnsInPlace) {pose : σ} {ops : List Op} {first second : Nat}
    (ordered : first < second) (draws : ops[first]? = some .draw)
    (drawsToo : ops[second]? = some .draw)
    (rests : ∀ index op, first < index → index < second → ops[index]? = some op →
      ((start pose).walk gait (ops.take index)).Rests op) :
    let number := (ops.take first).count .draw
    ∃ stroke next, ((start pose).walk gait ops).segments[number]? = some stroke ∧
      ((start pose).walk gait ops).segments[number + 1]? = some next ∧
        next.start = stroke.stop := by
  intro number
  have within : second < ops.length := (List.getElem?_eq_some_iff.1 drawsToo).1
  -- The pen is at the end of the first stroke when the second one begins.
  obtain ⟨position, segments⟩ := rests_take (w := .start pose) inPlace
    (fun index op after before => rests index op after before) (Nat.le_of_lt within)
    (Nat.succ_le_of_lt ordered) (Nat.le_refl second)
  have drawn : number = ((start pose).walk gait (ops.take first)).segments.length :=
    (length_segments_walk gait pose _).symm
  rw [Nat.succ_eq_add_one, walk_take_succ gait _ draws] at position segments
  -- Up to the second stroke, the segments are those of the first and these two.
  obtain ⟨later, whole⟩ := segments_take_prefix gait (.start pose) ops (second + 1)
  rw [walk_take_succ gait _ drawsToo, segments_step, if_pos rfl, segments, segments_step,
    if_pos rfl] at whole
  rw [← whole, drawn]
  refine ⟨gait.stroke ((start pose).walk gait (ops.take first)).here,
    gait.stroke ((start pose).walk gait (ops.take second)).here, ?_, ?_, position⟩
  · simp [Gait.stroke]
  · simp [Gait.stroke]

end Walker

namespace Plotter

/-- The symbol at a position goes back to a saved pose, because one is left there. -/
def Restores (p : Plotter) (angle : Float) (word : Word) (index : Nat) : Prop :=
  (p.table.ops word)[index]? = some .pop ∧ (p.walk angle (word.take index)).saved ≠ []

/--
A drawing without hidden steps hangs together, and a pen that is left alone goes on where it is.

If no symbol makes a step without a segment, every segment starts where the pen was set down or
where an earlier segment ends, and the pen comes to rest at such a place. Whatever the symbols do, a
stroke starts where the last one ended if there is no such step and no return to a saved pose
between them. Its segment comes next to that of the last one.
-/
theorem interpret_connected (p : Plotter) (g : Grammar) (word : Word) (path : Path)
    (drawn : (p.interpret g word).outcome = .ok path) :
    let ops := p.table.ops word
    (Op.move ∉ ops →
      (∀ index segment, path.segments[index]? = some segment →
        segment.start ∈ p.setup.origin :: (path.segments.take index).map Segment.stop) ∧
      path.final.position ∈ p.setup.origin :: path.segments.map Segment.stop) ∧
    ∀ first second, first < second → ops[first]? = some .draw → ops[second]? = some .draw →
      (∀ index, first < index → index < second →
        ops[index]? ≠ some .draw ∧ ops[index]? ≠ some .move ∧ ¬p.Restores g.angle word index) →
      let number := (ops.take first).count .draw
      ∃ stroke next, path.segments[number]? = some stroke ∧
        path.segments[number + 1]? = some next ∧ next.start = stroke.stop := by
  intro ops
  obtain ⟨_, _, rfl⟩ := interpret_eq_ok_iff.1 drawn
  have inPlace := Pose.gait_turnsInPlace p.setup.step g.angle
  refine ⟨fun draws => ?_, fun first second ordered here there between => ?_⟩
  -- The start is a place by itself, and each step keeps the walker connected.
  · have connected := (Walker.Connected.start (Pose.gait p.setup.step g.angle) p.setup.pose).walk
      inPlace draws
    exact ⟨connected.linked, connected.here⟩
  · refine Walker.next_stroke inPlace ordered here there fun index op after before found => ?_
    obtain ⟨noStroke, noStep, noReturn⟩ := between index after before
    rw [found] at noStroke noStep
    refine ⟨fun same => noStroke (congrArg some same), fun same => noStep (congrArg some same), ?_⟩
    -- A return at this position is none that restores a pose, so it finds nothing saved.
    rintro rfl
    by_contra left
    refine noReturn ⟨found, ?_⟩
    rwa [walk, SymbolTable.ops, List.map_take]

/-- A stray return and a turn between two strokes, then a branch whose stroke starts there too. -/
theorem interpret_connected_lenient :
    let p := Plotter.ofSetup { Setup.standard with policy := .lenient }
    let g := Figure.tree1.grammar
    ∃ path, (p.interpret g "F]-F[F]".toList).outcome = .ok path ∧
      Op.move ∉ p.table.ops "F]-F[F]".toList ∧
      path.final.position ∈ Point.zero :: path.segments.map Segment.stop ∧
      ∃ stroke next, path.segments[0]? = some stroke ∧ path.segments[1]? = some next ∧
        next.start = stroke.stop := by
  have valid : ({ Setup.standard with policy := .lenient } : Setup).validate = .ok () := by rfl
  intro p g
  have drawn : (p.interpret g "F]-F[F]".toList).outcome =
      .ok (p.walk g.angle "F]-F[F]".toList).path :=
    interpret_eq_ok_iff.2 ⟨valid, by rfl, rfl⟩
  have draws : Op.move ∉ p.table.ops "F]-F[F]".toList := by decide
  -- There are two strokes, and ops between them that rest.
  obtain ⟨linked, strokes⟩ := p.interpret_connected g _ _ drawn
  refine ⟨_, drawn, draws, (linked draws).2, strokes 0 3 (by decide) (by decide) (by decide) ?_⟩
  -- Between the strokes stand the return, which finds nothing saved, and the turn.
  intro index after before
  interval_cases index
  · exact ⟨by decide, by decide, fun restores => restores.2 rfl⟩
  · exact ⟨by decide, by decide, fun restores => absurd restores.1 (by decide)⟩

end Plotter

end Fractal
