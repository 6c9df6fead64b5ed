import Fractal.Figure
import Fractal.Proofs.Turtle.Branches
import Fractal.Proofs.Turtle.Interpretation

/-!
What a walk draws, told without a stack.

The pose before a symbol follows from the pose at the start and the motions that are still live
there. Main statement: a drawing consists of exactly the segments that these poses give.
-/

namespace Fractal

open Op (Matched live Inside Settled)

/-- The pose after one operation that knows of no saved poses. -/
def Gait.move {σ π : Type} (gait : Gait σ π) (pose : σ) : Op → σ
  | .draw | .move => gait.forward pose
  | .turnLeft => gait.left pose
  | .turnRight => gait.right pose
  | .push | .pop | .ignore => pose

/-- The pose before some position: the motions that are live there, done in order. -/
def Gait.replay {σ π : Type} (gait : Gait σ π) (start : σ) (ops : List Op) (now : Nat) : σ :=
  ((live ops now).filterMap fun index => ops[index]?).foldl gait.move start

/-- The positions up to one that meet a condition are those before it, and it if it does too. -/
theorem filter_range_succ (test : Nat → Bool) (now : Nat) :
    (List.range (now + 1)).filter test =
      (List.range now).filter test ++ if test now then [now] else [] := by
  rw [List.range_succ, List.filter_append, List.filter_singleton, Bool.cond_eq_ite]

/-- The positions of the drawing operations before some position. -/
def Op.draws (ops : List Op) (now : Nat) : List Nat :=
  (List.range now).filter fun index => ops[index]? = some .draw

/-- A drawing operation is at one position more, and no other operation is. -/
theorem Op.draws_succ {ops : List Op} {now : Nat} {op : Op} (here : ops[now]? = some op) :
    draws ops (now + 1) = draws ops now ++ if op = draw then [now] else [] := by
  rw [draws, filter_range_succ, here]
  simp [draws]

namespace Gait

variable {σ π : Type} (gait : Gait σ π) (start : σ)

/-- Where no branch ends, the pose moves on by the operation at hand. -/
theorem replay_succ {ops : List Op} {now : Nat} {op : Op} (here : ops[now]? = some op)
    (noReturn : ∀ save, ¬Matched ops save now) :
    gait.replay start ops (now + 1) = gait.move (gait.replay start ops now) op := by
  unfold replay
  rw [Op.live_succ noReturn, here, Option.any_some]
  -- Operations that are no motions do not enter the list, and do not move the pose either.
  cases motion : op.isMotion with
  | true => simp [here]
  | false => cases op <;> simp [Op.isMotion, move] at motion ⊢

/-- A return goes back to the pose before the save that it matches. -/
theorem replay_after_return {ops : List Op} {save back : Nat} (pair : Matched ops save back) :
    gait.replay start ops (back + 1) = gait.replay start ops save := by
  rw [replay, replay, Op.live_after_return pair]

/-- The segments of the drawing operations before some position, each from the pose there. -/
def strokes (ops : List Op) (now : Nat) : List (Segment π) :=
  (Op.draws ops now).map fun index =>
    let pose := gait.replay start ops index
    ⟨gait.position pose, gait.position (gait.forward pose)⟩

/-- Only a drawing operation adds a segment. -/
theorem strokes_succ {ops : List Op} {now : Nat} {op : Op} (here : ops[now]? = some op) :
    gait.strokes start ops (now + 1) = gait.strokes start ops now ++
      if op = .draw then
        [⟨gait.position (gait.replay start ops now),
          gait.position (gait.forward (gait.replay start ops now))⟩]
      else [] := by
  -- The last position is tested alone, and the strokes before it stay as they are.
  rw [strokes, strokes, Op.draws_succ here, List.map_append]
  by_cases drawn : op = .draw
  · simp [drawn]
  · simp [drawn]

end Gait

namespace Op

/-- The saves whose poses are left before some position, the latest first. -/
def Opened (ops : List Op) : List Nat → Nat → Prop
  | [], now => Settled ops now
  | save :: rest, now => Inside ops save now ∧ Opened ops rest save

/-- An operation that neither saves nor takes back leaves the saved poses as they are. -/
theorem Opened.succ {ops : List Op} {saves : List Nat} {now : Nat} {op : Op}
    (opened : Opened ops saves now) (here : ops[now]? = some op) (level : op.rise = 0) :
    Opened ops saves (now + 1) := by
  -- What is outside all branches is settled, what is inside stays inside.
  cases saves with
  | nil => exact Settled.succ opened here (by omega)
  | cons save rest => exact ⟨opened.1.succ here level, opened.2⟩

/-- A return takes the latest save away. -/
theorem Opened.after_return {ops : List Op} {saves : List Nat} {save back : Nat}
    (opened : Opened ops saves save) (pair : Matched ops save back) :
    Opened ops saves (back + 1) := by
  -- A branch that has ended changes nothing for those around it.
  cases saves with
  | nil => exact Settled.after_return opened pair
  | cons outer rest => exact ⟨opened.1.after_return pair, opened.2⟩

end Op

namespace Walker

variable {σ π : Type}

/-- The walk over one operation more is one step ahead. -/
theorem walk_take_succ (gait : Gait σ π) (w : Walker σ π) {ops : List Op} {index : Nat} {op : Op}
    (here : ops[index]? = some op) :
    w.walk gait (ops.take (index + 1)) = (w.walk gait (ops.take index)).step gait op := by
  rw [List.take_add_one, here, walk_append]
  rfl

/--
What holds at the start of a walk, and is kept by every operation, holds at every position.

Each operation is known by its position, so that what is kept may speak of the whole list.
-/
theorem walk_take_induction {gait : Gait σ π} {w : Walker σ π} {ops : List Op}
    (Kept : Nat → Walker σ π → Prop) (start : Kept 0 w)
    (step : ∀ now op, ops[now]? = some op → Kept now (w.walk gait (ops.take now)) →
      Kept (now + 1) ((w.walk gait (ops.take now)).step gait op))
    {now : Nat} (within : now ≤ ops.length) : Kept now (w.walk gait (ops.take now)) := by
  induction now with
  | zero => exact start
  | succ now ih =>
    have here : ops[now]? = some ops[now] := List.getElem?_eq_getElem (by omega)
    rw [walk_take_succ gait w here]
    exact step now _ here (ih (by omega))

/-- What holds at every position of a walk holds at its end. -/
theorem walk_induction {gait : Gait σ π} {w : Walker σ π} {ops : List Op}
    (Kept : Nat → Walker σ π → Prop) (start : Kept 0 w)
    (step : ∀ now op, ops[now]? = some op → Kept now (w.walk gait (ops.take now)) →
      Kept (now + 1) ((w.walk gait (ops.take now)).step gait op)) :
    Kept ops.length (w.walk gait ops) := by
  have whole := walk_take_induction Kept start step (Nat.le_refl ops.length)
  rwa [List.take_length] at whole

/-- An operation that neither saves nor takes back moves the pose without regard to the stack. -/
theorem here_step (gait : Gait σ π) (w : Walker σ π) {op : Op} (level : op.rise = 0) :
    (w.step gait op).here = gait.move w.here op := by
  -- Saves and returns are excluded, and the other ops move the pose by definition.
  cases op <;> simp [Op.rise, step, act, Gait.move] at level ⊢

/-- Only a drawing operation leaves a segment, and it starts at the present pose. -/
theorem segments_step (gait : Gait σ π) (w : Walker σ π) (op : Op) :
    (w.step gait op).segments = w.segments ++
      if op = .draw then [⟨gait.position w.here, gait.position (gait.forward w.here)⟩] else [] := by
  cases op with
  -- A return acts in two ways, neither of which touches the segments.
  | pop => cases stack : w.saved <;> simp [segments, step, act, stack]
  | _ => simp [segments, step, act]

/-- A walk that agrees at some position with what is told of it without a stack. -/
structure Follows (gait : Gait σ π) (start : σ) (ops : List Op) (now : Nat)
    (w : Walker σ π) : Prop where
  /-- The present pose is the one that the live motions lead to. -/
  here : w.here = gait.replay start ops now
  /-- The segments are those of the drawing operations so far. -/
  segments : w.segments = gait.strokes start ops now
  /-- Every saved pose is the one that the motions live at its save lead to. -/
  saved : ∃ saves, Op.Opened ops saves now ∧ w.saved = saves.map (gait.replay start ops)

namespace Follows

variable {gait : Gait σ π} {start : σ} {ops : List Op} {now : Nat} {w : Walker σ π}

/-- A walk that has read nothing agrees with the replay of nothing. -/
theorem start_zero (gait : Gait σ π) (pose : σ) (ops : List Op) :
    Follows gait pose ops 0 (.start pose) where
  here := rfl
  segments := rfl
  saved := ⟨[], Op.settled_zero ops, rfl⟩

/-- Agreement is preserved by every operation. -/
theorem step (follows : Follows gait start ops now w) {op : Op} (here : ops[now]? = some op) :
    Follows gait start ops (now + 1) (w.step gait op) := by
  obtain ⟨saves, opened, stack⟩ := follows.saved
  have drawn : (w.step gait op).segments = gait.strokes start ops (now + 1) := by
    rw [segments_step, gait.strokes_succ start here, follows.segments, follows.here]
  -- Only returns end branches, so all other operations move the replay on.
  have onward : op ≠ .pop →
      gait.replay start ops (now + 1) = gait.move (gait.replay start ops now) op := by
    intro other
    refine gait.replay_succ start here fun save pair => other ?_
    exact Option.some.inj (here.symm.trans pair.returns)
  rcases op.cases_rise with rfl | rfl | level
  -- A save opens a branch at the present pose.
  · rw [step_push]
    refine ⟨?_, drawn, now :: saves, ⟨Inside.start here, opened⟩, ?_⟩
    · rw [onward (by decide), ← follows.here]
      rfl
    · rw [List.map_cons, ← stack, ← follows.here]
  · cases saves with
    -- With nothing saved the return matches no save, and the replay stays where it is as well.
    | nil =>
      rw [step_pop_nil gait stack]
      rw [step_pop_nil gait stack] at drawn
      refine ⟨?_, drawn, [], Settled.succ opened here (by decide), stack⟩
      rw [gait.replay_succ start here (Settled.not_matched opened), ← follows.here]
      rfl
    -- Otherwise it matches the latest save, where walk and replay agreed on the pose.
    | cons save rest =>
      obtain ⟨inside, below⟩ := opened
      have pair : Matched ops save now := Op.matched_iff_inside.2 ⟨inside, here⟩
      rw [List.map_cons] at stack
      rw [step_pop_cons gait stack]
      rw [step_pop_cons gait stack] at drawn
      refine ⟨?_, drawn, rest, below.after_return pair, rfl⟩
      exact (gait.replay_after_return start pair).symm
  -- Everything else moves on inside the same branches.
  · obtain ⟨same, _⟩ := w.step_level gait level
    refine ⟨?_, drawn, saves, opened.succ here level, same.trans stack⟩
    rw [w.here_step gait level, onward (by rintro rfl; cases level), follows.here]

/-- Agreement holds at every position of a list. -/
theorem walk_take (gait : Gait σ π) (pose : σ) (ops : List Op) (now : Nat)
    (within : now ≤ ops.length) :
    Follows gait pose ops now ((Walker.start pose).walk gait (ops.take now)) :=
  -- The list that is replayed stays the whole one, up to whichever position the walk has come.
  walk_take_induction (Follows gait pose ops) (start_zero gait pose ops)
    (fun _ _ here follows => follows.step here) within

end Follows

/-- A walk ends in the replayed pose, with the segments of all its drawing operations. -/
theorem walk_follows (gait : Gait σ π) (pose : σ) (ops : List Op) :
    Follows gait pose ops ops.length ((start pose).walk gait ops) :=
  walk_induction (Follows gait pose ops) (.start_zero gait pose ops)
    fun _ _ here follows => follows.step here

end Walker

/-- The pose after one motion: a step ahead of its position, or a turn added to its heading. -/
def Pose.move (step angle : Float) (p : Pose) : Op → Pose
  | .draw | .move => { p with position := p.ahead step }
  | .turnLeft => { p with heading := p.heading + angle }
  | .turnRight => { p with heading := p.heading + -angle }
  | .push | .pop | .ignore => p

namespace Plotter

/--
The pose of a turtle before some position of a word, told without a stack.

It starts at the origin with the first heading, and does only the motions that are live there.
-/
def replay (p : Plotter) (angle : Float) (word : Word) (now : Nat) : Pose :=
  ((live (p.table.ops word) now).filterMap fun index => (p.table.ops word)[index]?).foldl
    (Pose.move p.setup.step angle) { position := p.setup.origin, heading := p.setup.heading }

/-- The motions written out are those that the gait of a turtle takes. -/
theorem gait_replay (p : Plotter) (angle : Float) (word : Word) (now : Nat) :
    (Pose.gait p.setup.step angle).replay p.setup.pose (p.table.ops word) now =
      p.replay angle word now := by
  have same : (Pose.gait p.setup.step angle).move = Pose.move p.setup.step angle := by
    funext pose op
    -- Steps and turns are written out on both sides, and the other operations do nothing.
    cases op <;> rfl
  rw [Gait.replay, same]
  rfl

/--
A drawing has one segment for each drawing symbol, in order, from the pose replayed at the symbol.

It ends in the pose replayed at the end of the word.
-/
theorem interpret_eq_replay (p : Plotter) (g : Grammar) (word : Word) (path : Path)
    (drawn : (p.interpret g word).outcome = .ok path) :
    path.segments = (Op.draws (p.table.ops word) word.length).map (fun index =>
        ⟨(p.replay g.angle word index).position,
          (p.replay g.angle word index).ahead p.setup.step⟩) ∧
      path.final = p.replay g.angle word word.length := by
  -- A drawing is the path of the whole walk, and that agrees with the replay at its end.
  obtain ⟨_, _, rfl⟩ := interpret_eq_ok_iff.1 drawn
  have size : (p.table.ops word).length = word.length := List.length_map _
  have follows := Walker.walk_follows (Pose.gait p.setup.step g.angle) p.setup.pose
    (p.table.ops word)
  rw [size] at follows
  simp only [← gait_replay]
  exact ⟨follows.segments, follows.here⟩

/--
An unmatched return, a closed branch and an open one, drawn by lenient settings.

The segment after the closed branch starts where the first one ended, and the open branch is kept.
-/
theorem interpret_eq_replay_lenient :
    let p := Plotter.ofSetup { Setup.standard with policy := .lenient }
    let g := Figure.tree1.grammar
    let word : Word := "]F[+F]F[-F".toList
    let fork : Point := Pose.home.ahead 10
    let left : Pose := { position := fork, heading := 0 + g.angle }
    let tip : Point := ({ position := fork, heading := 0 } : Pose).ahead 10
    let right : Pose := { position := tip, heading := 0 + -g.angle }
    ∃ path, (p.interpret g word).outcome = .ok path ∧
      path.segments = [⟨.zero, fork⟩, ⟨fork, left.ahead 10⟩, ⟨fork, tip⟩, ⟨tip, right.ahead 10⟩] ∧
      path.final = { right with position := right.ahead 10 } := by
  have valid : ({ Setup.standard with policy := .lenient } : Setup).validate = .ok () := by rfl
  intro p g word fork left tip right
  -- The first return is stray, one branch is closed and one is left open.
  have drawn : (p.interpret g word).outcome = .ok (p.walk g.angle word).path :=
    interpret_eq_ok_iff.2 ⟨valid, by rfl, rfl⟩
  obtain ⟨segments, final⟩ := p.interpret_eq_replay g word _ drawn
  have ops : p.table.ops word =
      [.pop, .draw, .push, .turnLeft, .draw, .pop, .draw, .push, .turnRight, .draw] := by decide
  have size : word.length = 10 := by decide
  -- The positions are put in, and what the replay gives is evaluated.
  simp only [replay, ops, size] at segments final
  exact ⟨_, drawn, segments, final⟩

end Plotter

end Fractal
