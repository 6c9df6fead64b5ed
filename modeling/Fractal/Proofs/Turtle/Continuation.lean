import Fractal.Proofs.Turtle.Interpretation

/-!
A walk as the continuation of an earlier one.

What was saved, drawn, noted and read before lies below what a later part of a walk adds, and the
later part does the same things as it would without it.
-/

namespace Fractal

namespace Walker

variable {σ π : Type} (gait : Gait σ π)

/-- A walk on top of an earlier one, whose poses, segments and notes lie below its own. -/
def atop (w past : Walker σ π) : Walker σ π where
  here := w.here
  saved := w.saved ++ past.saved
  drawn := w.drawn ++ past.drawn
  -- Positions are counted from the first symbol of the earlier walk.
  unmatched := w.unmatched.map (past.read + ·) ++ past.unmatched
  read := past.read + w.read

/-- The pose and the saved poses of a walk, as if nothing had been drawn or read before. -/
def fresh (w : Walker σ π) : Walker σ π :=
  { w with drawn := [], unmatched := [], read := 0 }

/-- A walk that begins where an earlier one stands is that walk itself. -/
@[simp] theorem start_atop (w : Walker σ π) : (start w.here).atop w = w := rfl

/-- The saved poses may be counted to the later part, which then has none below it. -/
theorem fresh_atop (w : Walker σ π) : w.fresh.atop { w with saved := [] } = w := by
  simp [atop, fresh]

/-- The segments of an earlier walk come before the later ones. -/
@[simp] theorem segments_atop (w past : Walker σ π) :
    (w.atop past).segments = past.segments ++ w.segments :=
  List.reverse_append

/-- The returns skipped in a later part are counted on from the earlier symbols. -/
@[simp] theorem skipped_atop (w past : Walker σ π) :
    (w.atop past).skipped = past.skipped ++ w.skipped.map (past.read + ·) := by
  simp [skipped, atop]

/-- An operation does the same on top of an earlier walk, unless it takes a pose from below. -/
theorem step_atop (w past : Walker σ π) {op : Op}
    (found : op = .pop → w.saved = [] → past.saved = []) :
    (w.atop past).step gait op = (w.step gait op).atop past := by
  cases op with
  | pop =>
    cases stack : w.saved with
    | cons pose rest => simp [step, act, atop, stack, Nat.add_assoc]
    -- A return that finds nothing of its own must not find anything below either.
    | nil => simp [step, act, atop, stack, found rfl stack, Nat.add_assoc]
  | _ => simp [step, act, atop, Nat.add_assoc]

/-- With no pose below, a walk does the same on top of an earlier one. -/
theorem walk_atop_of_bottom (past : Walker σ π) (bottom : past.saved = []) (ops : List Op)
    (w : Walker σ π) : (w.atop past).walk gait ops = (w.walk gait ops).atop past := by
  -- Nothing lies below, so that every return finds the same as alone.
  induction ops generalizing w with
  | nil => rfl
  | cons op rest ih => rw [walk_cons, w.step_atop gait past fun _ _ => bottom, ih, walk_cons]

/-- With enough poses of its own, a walk does the same on top of an earlier one. -/
theorem walk_atop_of_enough (past : Walker σ π) {ops : List Op} {w : Walker σ π}
    (enough : Op.Enough w.saved.length ops) :
    (w.atop past).walk gait ops = (w.walk gait ops).atop past := by
  -- The number of poses follows the rise of the operations, so the rest has enough as well.
  induction ops generalizing w with
  | nil => rfl
  | cons op rest ih =>
    have first : Op.Enough w.saved.length ([op] ++ rest) := enough
    obtain ⟨own, later⟩ := Op.enough_append.1 first
    obtain ⟨_, left, stack, size⟩ := walk_enough gait [op] (List.append_nil w.saved).symm own
    rw [List.append_nil] at stack
    have found : op = .pop → w.saved = [] → past.saved = [] := by
      rintro rfl empty
      rw [empty] at own
      have impossible := own 1
      simp [Op.rise] at impossible
    -- What is left of the poses after the first operation is enough for the rest.
    rw [walk_cons, w.step_atop gait past found, walk_cons, ih]
    change Op.Enough (w.walk gait [op]).saved.length rest
    rw [stack, size]
    exact later

/-- A walk keeps what was drawn and noted before, and goes on as if there had been nothing. -/
theorem walk_eq_atop (w : Walker σ π) (ops : List Op) :
    w.walk gait ops = (w.fresh.walk gait ops).atop { w with saved := [] } := by
  -- All saved poses are counted to the later part, so that none lies below it.
  have split := walk_atop_of_bottom gait { w with saved := [] } rfl ops w.fresh
  rwa [fresh_atop] at split

/-- A walk adds one segment for every drawing operation. -/
theorem length_drawn_walk (w : Walker σ π) (ops : List Op) :
    (w.walk gait ops).drawn.length = w.drawn.length + ops.count .draw := by
  induction ops generalizing w with
  | nil => rfl
  | cons op rest ih =>
    -- Only an op that draws adds a stroke.
    have one : (w.step gait op).drawn.length = w.drawn.length + [op].count .draw := by
      cases op with
      | pop => cases stack : w.saved <;> simp [step, act, stack]
      | _ => simp [step, act]
    rw [walk_cons, ih, one, Nat.add_assoc, ← List.count_append, List.singleton_append]

/-- From the start a walk draws one segment for every drawing operation. -/
theorem length_segments_walk (pose : σ) (ops : List Op) :
    ((start pose).walk gait ops).segments.length = ops.count .draw := by
  rw [segments, List.length_reverse, length_drawn_walk]
  exact Nat.zero_add _

/-- Only symbols that were read are noted as unmatched returns. -/
theorem lt_read_of_mem_unmatched {w : Walker σ π} (ops : List Op)
    (noted : ∀ index ∈ w.unmatched, index < w.read) :
    ∀ index ∈ (w.walk gait ops).unmatched, index < (w.walk gait ops).read := by
  induction ops generalizing w with
  | nil => exact noted
  | cons op rest ih =>
    rw [walk_cons]
    refine ih fun index member => ?_
    -- What one operation may note is its own position.
    have known : index = w.read ∨ index ∈ w.unmatched := by
      cases op with
      | pop => cases stack : w.saved <;> simp_all [step, act]
      | _ => exact .inr member
    change index < w.read + 1
    rcases known with rfl | earlier
    -- The op that has just been read.
    · exact Nat.lt_succ_self _
    -- One that was noted earlier.
    · exact Nat.lt_succ_of_lt (noted index earlier)

end Walker

namespace Plotter

variable (p : Plotter) (angle : Float)

/-- What a word adds to the walk over an earlier one, counted from its own first symbol. -/
def resume (before after : Word) : Walker Pose Point :=
  (p.walk angle before).fresh.walk (Pose.gait p.setup.step angle) (p.table.ops after)

/-- A walk over two words is what the second adds to the walk over the first. -/
theorem walk_append_eq_atop (before after : Word) :
    p.walk angle (before ++ after) =
      (p.resume angle before after).atop { p.walk angle before with saved := [] } := by
  rw [walk_append, Walker.walk_eq_atop]
  rfl

/-- A walk over two words ends where the second leads to after the first. -/
theorem here_walk_append (before after : Word) :
    (p.walk angle (before ++ after)).here = (p.resume angle before after).here := by
  rw [walk_append_eq_atop]
  rfl

/-- The segments of two words follow one another. -/
theorem segments_walk_append (before after : Word) :
    (p.walk angle (before ++ after)).segments =
      (p.walk angle before).segments ++ (p.resume angle before after).segments := by
  rw [walk_append_eq_atop]
  exact Walker.segments_atop _ _

/-- Returns skipped in the second of two words are found behind all symbols of the first. -/
theorem skipped_walk_append (before after : Word) :
    (p.walk angle (before ++ after)).skipped =
      (p.walk angle before).skipped ++
        (p.resume angle before after).skipped.map (before.length + ·) := by
  -- The symbols of the first word are those that its walk has read.
  rw [walk_append_eq_atop, ← p.read_walk angle before]
  exact Walker.skipped_atop _ _

/-- Only symbols of a word are skipped in the walk over it. -/
theorem lt_length_of_mem_skipped {word : Word} {index : Nat}
    (skipped : index ∈ (p.walk angle word).skipped) : index < word.length := by
  -- A fresh walk has noted nothing, and has read as many symbols as the word has.
  have noted := Walker.lt_read_of_mem_unmatched (Pose.gait p.setup.step angle)
    (w := .start p.setup.pose) (p.table.ops word) (by simp [Walker.start])
  have below := noted index (List.mem_reverse.1 skipped)
  rwa [← p.read_walk angle word]

end Plotter

end Fractal
