import Fractal.Figure
import Fractal.Proofs.Turtle.Continuation

/-!
Closed branches have no effect on what is drawn around them.

Main statement: a word with a balanced branch and the same word without it are drawn alike but for
the segments of the branch, or are refused for the same cause.
-/

namespace Fractal

/-- A balanced branch leaves nothing behind but its segments and the number of its symbols. -/
theorem Walker.walk_branch {σ π : Type} (gait : Gait σ π) {body : List Op}
    (balanced : Balanced body) (w : Walker σ π) :
    w.walk gait (.push :: (body ++ [.pop])) =
      { w with
        drawn := ((start w.here).walk gait body).drawn ++ w.drawn
        read := w.read + (body.length + 2) } := by
  -- The body is walked on top of the pose that was saved, and does not reach it.
  have inner := walk_atop_of_enough gait (w.step gait .push) (w := start w.here)
    (balanced.enough (Int.le_refl 0))
  have outside : (start w.here).atop (w.step gait .push) = w.step gait .push :=
    start_atop (w.step gait .push)
  rw [outside] at inner
  have stack : ((start w.here).walk gait body).saved = [] :=
    (walk_balanced gait balanced (start w.here)).1
  have silent : ((start w.here).walk gait body).unmatched = [] :=
    (walk_balanced gait balanced (start w.here)).2
  have size : ((start w.here).walk gait body).read = body.length :=
    (read_walk gait _ body).trans (Nat.zero_add _)
  rw [walk_cons, walk_append, inner]
  generalize (start w.here).walk gait body = branch at stack silent size ⊢
  -- So the return finds that pose on top of the stack.
  have top : (branch.atop (w.step gait .push)).saved = w.here :: w.saved := by
    rw [atop, stack]
    rfl
  rw [walk_cons, walk_nil, step_pop_cons gait top]
  have counted : w.read + 1 + body.length + 1 = w.read + (body.length + 2) := by omega
  simp [atop, silent, size, counted]

namespace Plotter

/-- The walk over a branch alone, from the pose after the word before it. -/
def branch (p : Plotter) (angle : Float) (before body : Word) : Walker Pose Point :=
  (Walker.start (p.walk angle before).here).walk (Pose.gait p.setup.step angle) (p.table.ops body)

/-- The branch alone draws one segment for every drawing symbol. -/
theorem length_segments_branch (p : Plotter) (angle : Float) (before body : Word) :
    (p.branch angle before body).segments.length = (p.table.ops body).count .draw :=
  Walker.length_segments_walk _ _ _

section Around

variable {p : Plotter} {body : Word} {save back : Char}

/-- After a balanced branch a walk goes on as after the word before the branch. -/
theorem walk_around_branch (balanced : Balanced (p.table.ops body))
    (saves : p.table.op save = .push) (returns : p.table.op back = .pop) (angle : Float)
    (before after : Word) :
    p.walk angle (before ++ [save] ++ body ++ [back] ++ after) =
      (p.resume angle before after).atop
        { p.walk angle before with
          saved := []
          drawn := (p.branch angle before body).drawn ++ (p.walk angle before).drawn
          read := before.length + (body.length + 2) } := by
  -- The branch is regarded as one piece between the two parts.
  have word : before ++ [save] ++ body ++ [back] ++ after =
      before ++ (([save] ++ (body ++ [back])) ++ after) := by simp
  have ops : p.table.ops ([save] ++ (body ++ [back])) = .push :: (p.table.ops body ++ [.pop]) := by
    rw [SymbolTable.ops_append, SymbolTable.ops_append, ← saves, ← returns]
    rfl
  -- The rest of the word only finds more drawn and read before it, and the same poses.
  rw [word, walk_append, SymbolTable.ops_append, ops, Walker.walk_append,
    Walker.walk_branch _ balanced, Walker.walk_eq_atop, SymbolTable.length_ops, read_walk]
  rfl

/-- A balanced branch has no effect on the pose in which the walk ends. -/
theorem here_around_branch (balanced : Balanced (p.table.ops body))
    (saves : p.table.op save = .push) (returns : p.table.op back = .pop) (angle : Float)
    (before after : Word) :
    (p.walk angle (before ++ [save] ++ body ++ [back] ++ after)).here =
      (p.walk angle (before ++ after)).here := by
  rw [walk_around_branch balanced saves returns, here_walk_append]
  rfl

/-- The segments of a balanced branch stand between those of the words around it. -/
theorem segments_around_branch (balanced : Balanced (p.table.ops body))
    (saves : p.table.op save = .push) (returns : p.table.op back = .pop) (angle : Float)
    (before after : Word) :
    (p.walk angle (before ++ [save] ++ body ++ [back] ++ after)).segments =
      (p.walk angle before).segments ++ (p.branch angle before body).segments ++
        (p.resume angle before after).segments := by
  rw [walk_around_branch balanced saves returns, Walker.segments_atop, Walker.segments,
    List.reverse_append]
  rfl

/-- A balanced branch only moves the skipped returns that come after it. -/
theorem skipped_around_branch (balanced : Balanced (p.table.ops body))
    (saves : p.table.op save = .push) (returns : p.table.op back = .pop) (angle : Float)
    (before after : Word) :
    (p.walk angle (before ++ [save] ++ body ++ [back] ++ after)).skipped =
      (p.walk angle before).skipped ++ (p.resume angle before after).skipped.map
        (before.length + (body.length + 2) + ·) := by
  rw [walk_around_branch balanced saves returns]
  exact Walker.skipped_atop _ _

end Around

/--
A word is drawn with a balanced branch as without it, or both are refused for the same cause.

The branch adds its own segments after those of the symbols before it, and is left in the pose in
which it was entered. An unmatched return after the branch is only met so many symbols later. The
branch may itself stand in branches that are closed after it, or never.
-/
theorem branch_isolated (p : Plotter) (g : Grammar) (before body after : Word) (save back : Char)
    (saves : p.table.op save = .push) (returns : p.table.op back = .pop)
    (balanced : Balanced (p.table.ops body)) :
    let whole := (p.interpret g (before ++ [save] ++ body ++ [back] ++ after)).outcome
    let pruned := (p.interpret g (before ++ after)).outcome
    (∃ long short, whole = .ok long ∧ pruned = .ok short ∧ long.final = short.final ∧
      ∃ branch rest, branch.length = (p.table.ops body).count .draw ∧
        short.segments = (p.walk g.angle before).segments ++ rest ∧
        long.segments = (p.walk g.angle before).segments ++ branch ++ rest) ∨
    (∃ fault, p.setup.validate = .error fault ∧ whole = .error fault ∧ pruned = .error fault) ∨
    (∃ late early, whole = .error (.unmatchedPop late) ∧ pruned = .error (.unmatchedPop early) ∧
      if early < before.length then late = early else late = early + (body.length + 2)) := by
  intro whole pruned
  -- The settings are checked before any symbol is read.
  cases checked : p.setup.validate with
  | error fault =>
    refine .inr (.inl ⟨fault, rfl, ?_, ?_⟩)
    · exact congrArg Run.outcome (interpret_of_invalid checked g _)
    · exact congrArg Run.outcome (interpret_of_invalid checked g _)
  | ok _ =>
    have wholeEnds : whole = _ := outcome_of_valid checked g _
    have prunedEnds : pruned = _ := outcome_of_valid checked g _
    rw [skipped_around_branch balanced saves returns] at wholeEnds
    rw [skipped_walk_append] at prunedEnds
    -- If the policy allows both walks, only the segments of the branch tell them apart.
    have final := here_around_branch balanced saves returns g.angle before after
    have drawn : ∃ branch rest, branch.length = (p.table.ops body).count .draw ∧
        (p.walk g.angle (before ++ after)).segments =
          (p.walk g.angle before).segments ++ rest ∧
        (p.walk g.angle (before ++ [save] ++ body ++ [back] ++ after)).segments =
          (p.walk g.angle before).segments ++ branch ++ rest :=
      ⟨_, _, p.length_segments_branch g.angle before body,
        p.segments_walk_append g.angle before after,
        segments_around_branch balanced saves returns g.angle before after⟩
    -- Under the strict policy the first skipped return decides, which is before the branch or not.
    cases policy : p.setup.policy with
    -- The lenient policy draws both words.
    | lenient =>
      rw [policy, PopPolicy.judge_lenient] at wholeEnds prunedEnds
      exact .inl ⟨_, _, wholeEnds, prunedEnds, final, drawn⟩
    | strict =>
      rw [policy] at wholeEnds prunedEnds
      cases first : (p.walk g.angle before).skipped with
      -- Both walks are refused inside the common part before the branch.
      | cons index _ =>
        have within : index < before.length := p.lt_length_of_mem_skipped g.angle (by simp [first])
        rw [first] at wholeEnds prunedEnds
        exact .inr (.inr ⟨index, index, wholeEnds, prunedEnds, by rw [if_pos within]⟩)
      -- Nothing is skipped before the branch, so that the rest decides.
      | nil =>
        rw [first] at wholeEnds prunedEnds
        cases later : (p.resume g.angle before after).skipped with
        -- Both are refused behind the branch, where its symbols are counted in one of them.
        | cons index _ =>
          rw [later] at wholeEnds prunedEnds
          refine .inr (.inr ⟨before.length + (body.length + 2) + index, before.length + index,
            wholeEnds, prunedEnds, ?_⟩)
          rw [if_neg (by omega)]
          omega
        -- Nothing is skipped anywhere, and both are drawn.
        | nil =>
          rw [later] at wholeEnds prunedEnds
          exact .inl ⟨_, _, wholeEnds, prunedEnds, final, drawn⟩

/--
A branch with two strokes, inside another one that is only closed after it.

It has another branch inside, and the drawing without it ends in the same pose two segments earlier.
-/
theorem branch_isolated_nested :
    let p := Plotter.standard
    let g := Figure.tree1.grammar
    p.table.op '[' = .push ∧ p.table.op ']' = .pop ∧ Balanced (p.table.ops "+F[-F]".toList) ∧
      ∃ long short, (p.interpret g "F[F[+F[-F]]F]F".toList).outcome = .ok long ∧
        (p.interpret g "F[FF]F".toList).outcome = .ok short ∧
        long.final = short.final ∧ long.size = short.size + 2 := by
  have valid : Setup.standard.validate = .ok () := by rfl
  intro p g
  have saves : p.table.op '[' = .push := by decide
  have returns : p.table.op ']' = .pop := by decide
  have balanced : Balanced (p.table.ops "+F[-F]".toList) := by decide
  -- The shorter word has one branch, which is closed.
  have drawn : (p.interpret g "F[FF]F".toList).outcome =
      .ok (p.walk g.angle "F[FF]F".toList).path :=
    interpret_eq_ok_iff.2 ⟨valid, by rfl, rfl⟩
  refine ⟨saves, returns, balanced, ?_⟩
  -- Since the word without the branch is drawn, so is the one with it.
  rcases p.branch_isolated g "F[F".toList "+F[-F]".toList "F]F".toList '[' ']' saves returns
      balanced with ⟨long, short, whole, pruned, final, branch, rest, size, apart, along⟩ |
      ⟨fault, invalid, _⟩ | ⟨late, early, _, refused, _⟩
  -- The branch has two strokes, which the longer word has in addition.
  · refine ⟨long, short, whole, pruned, final, ?_⟩
    have strokes : (p.table.ops "+F[-F]".toList).count .draw = 2 := by decide
    rw [Path.size, Path.size, along, apart, List.length_append, List.length_append,
      List.length_append, size, strokes]
    omega
  -- The settings are sound.
  · cases valid.symm.trans invalid
  -- The shorter word is not refused.
  · cases drawn.symm.trans refused

end Plotter

end Fractal
