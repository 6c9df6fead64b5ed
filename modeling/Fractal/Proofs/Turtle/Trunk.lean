import Fractal.Proofs.Rendering
import Fractal.Proofs.Turtle.Replay

/-!
The trunk of a word: its symbols outside of all branches.

A closed branch leaves the turtle where it began, so only the trunk of a balanced word decides in
which pose its drawing ends. Rounds of balanced rules grow the trunk from its own symbols alone.
Main statement: three plants of the catalogue end straight ahead of where they start.
-/

namespace Fractal

namespace SymbolTable

/-- The symbols of a word outside of all branches, with so many branches open before it. -/
def trunkFrom (t : SymbolTable) : Nat → Word → Word
  | _, [] => []
  | level, symbol :: rest =>
    match t.op symbol with
    | .push => t.trunkFrom (level + 1) rest
    | .pop => t.trunkFrom (level - 1) rest
    | _ => if level = 0 then symbol :: t.trunkFrom level rest else t.trunkFrom level rest

/-- The symbols of a word outside of all branches. -/
def trunk (t : SymbolTable) (word : Word) : Word :=
  t.trunkFrom 0 word

variable {t : SymbolTable}

/-- One branch more is open after a save. -/
theorem trunkFrom_push {symbol : Char} (saves : t.op symbol = .push) (level : Nat) (rest : Word) :
    t.trunkFrom level (symbol :: rest) = t.trunkFrom (level + 1) rest := by
  simp only [trunkFrom, saves]

/-- One branch less is open after a return, if there was any. -/
theorem trunkFrom_pop {symbol : Char} (returns : t.op symbol = .pop) (level : Nat) (rest : Word) :
    t.trunkFrom level (symbol :: rest) = t.trunkFrom (level - 1) rest := by
  simp only [trunkFrom, returns]

/-- Every other symbol belongs to the trunk if no branch is open. -/
theorem trunkFrom_level {symbol : Char} (flat : (t.op symbol).rise = 0) (level : Nat)
    (rest : Word) :
    t.trunkFrom level (symbol :: rest) =
      (if level = 0 then [symbol] else []) ++ t.trunkFrom level rest := by
  rw [trunkFrom]
  -- Saves and returns are the only operations that have a rise.
  split
  · rename_i saves
    rw [saves] at flat
    cases flat
  · rename_i returns
    rw [returns] at flat
    cases flat
  · split <;> rfl

/-- A symbol that neither saves nor takes back is a trunk. -/
theorem trunk_singleton {symbol : Char} (flat : (t.op symbol).rise = 0) :
    t.trunk [symbol] = [symbol] := by
  rw [trunk, trunkFrom_level flat]
  rfl

/-- With more branches open than a word closes, none of it belongs to the trunk. -/
theorem trunkFrom_of_enough {level : Nat} {saved : Int} {word : Word}
    (enough : Op.Enough saved (t.ops word)) (deep : saved < level) :
    t.trunkFrom level word = [] := by
  -- Level and saved poses go up and down together, so the level never comes down to zero.
  induction word generalizing level saved with
  | nil => rfl
  | cons symbol rest ih =>
    obtain ⟨nonneg, later⟩ := Op.enough_cons.1 enough
    rcases (t.op symbol).cases_rise with saves | returns | flat
    -- A save raises both.
    · rw [trunkFrom_push saves]
      rw [saves] at later
      exact ih later (by simp only [Op.rise]; omega)
    -- A return lowers both.
    · rw [trunkFrom_pop returns]
      rw [returns] at later
      exact ih later (by simp only [Op.rise]; omega)
    -- Anything else is inside a branch, and is left out.
    · rw [trunkFrom_level flat, if_neg (by omega)]
      rw [flat, Int.add_zero] at later
      exact ih later deep

/-- What follows a word begins at the level where the word ends. -/
theorem trunkFrom_append {level : Nat} {first : Word} (enough : Op.Enough level (t.ops first))
    (second : Word) :
    t.trunkFrom level (first ++ second) =
      t.trunkFrom level first ++
        t.trunkFrom (level + Op.height (t.ops first)).toNat second := by
  -- With enough poses the level is nowhere cut off at zero, so it differs by the height.
  induction first generalizing level with
  | nil => simp [ops, trunkFrom]
  | cons symbol rest ih =>
    obtain ⟨-, later⟩ := Op.enough_cons.1 enough
    rw [List.cons_append, ops_cons, Op.height_cons, ← Int.add_assoc]
    rcases (t.op symbol).cases_rise with saves | returns | flat
    -- A save goes one level up on both sides.
    · rw [trunkFrom_push saves, trunkFrom_push saves, saves]
      rw [saves] at later
      exact ih later
    -- A return is only among enough poses if one is left for it.
    · have some : 0 ≤ (level : Int) + Op.rise .pop := by simpa [returns] using later 0
      have below : ((level - 1 : Nat) : Int) = level + Op.rise .pop := by
        simp only [Op.rise] at some ⊢
        omega
      rw [trunkFrom_pop returns, trunkFrom_pop returns, returns, ← below]
      rw [returns, ← below] at later
      exact ih later
    -- Any other symbol is kept or left out on both sides.
    · rw [flat, Int.add_zero] at later ⊢
      rw [trunkFrom_level flat, trunkFrom_level flat, ih later, List.append_assoc]

/-- A balanced word adds its trunk where no branch is open, and nothing elsewhere. -/
theorem trunkFrom_append_of_balanced {first : Word} (balanced : Balanced (t.ops first))
    (level : Nat) (second : Word) :
    t.trunkFrom level (first ++ second) =
      (if level = 0 then t.trunk first else []) ++ t.trunkFrom level second := by
  have enough : Op.Enough level (t.ops first) := balanced.enough (by omega)
  have back : ((level : Int) + Op.height (t.ops first)).toNat = level := by
    rw [balanced.height_eq_zero, Int.add_zero, Int.toNat_natCast]
  rw [trunkFrom_append enough, back]
  by_cases outside : level = 0
  -- Outside of all branches the trunk of the balanced word is kept.
  · rw [if_pos outside, outside]
    rfl
  -- Inside of one nothing of it is.
  · rw [if_neg outside, trunkFrom_of_enough (balanced.enough (Int.le_refl 0)) (by omega)]

/-- The trunk grows from its own symbols, if only balanced words grow and saves and returns stay. -/
theorem trunkFrom_flatMap {part : Char → Word}
    (kept : ∀ symbol, (t.op symbol).rise ≠ 0 → part symbol = [symbol])
    (balanced : ∀ symbol, (t.op symbol).rise = 0 → Balanced (t.ops (part symbol)))
    (level : Nat) (word : Word) :
    t.trunkFrom level (word.flatMap part) =
      (t.trunkFrom level word).flatMap fun symbol => t.trunk (part symbol) := by
  -- The level at which the rest is read depends on the symbols before it.
  induction word generalizing level with
  | nil => rfl
  | cons symbol rest ih =>
    rw [List.flatMap_cons]
    -- A save or a return is read alike on both sides, and every other symbol as a balanced word.
    rcases (t.op symbol).cases_rise with saves | returns | flat
    · rw [kept symbol (by simp [saves, Op.rise]), List.singleton_append, trunkFrom_push saves,
        trunkFrom_push saves, ih]
    · rw [kept symbol (by simp [returns, Op.rise]), List.singleton_append, trunkFrom_pop returns,
        trunkFrom_pop returns, ih]
    · rw [trunkFrom_append_of_balanced (balanced symbol flat), trunkFrom_level flat,
        List.flatMap_append, ih]
      split
      · rw [List.flatMap_singleton]
      · rfl

end SymbolTable

namespace Walker

variable {σ π : Type}

/-- The pose at which the outermost open branch began, or the present one if none is open. -/
def outer (w : Walker σ π) : σ :=
  w.saved.getLastD w.here

/-- A save keeps the outer pose, since it is what a first save puts on the stack. -/
theorem outer_step_push (gait : Gait σ π) (w : Walker σ π) :
    (w.step gait .push).outer = w.outer :=
  List.getLastD_cons

/-- A return keeps the outer pose, and closes a branch if any is open. -/
theorem outer_step_pop (gait : Gait σ π) (w : Walker σ π) :
    (w.step gait .pop).outer = w.outer ∧
      (w.step gait .pop).saved.length = w.saved.length - 1 := by
  cases stack : w.saved with
  -- A return that finds nothing changes neither.
  | nil =>
    rw [step_pop_nil gait stack, outer, outer, stack]
    exact ⟨rfl, rfl⟩
  -- One that finds a pose takes it from the top, and the outermost lies at the bottom.
  | cons pose below =>
    rw [step_pop_cons gait stack, outer, outer, stack]
    exact ⟨List.getLastD_cons.symm, rfl⟩

/-- All other operations move the outer pose exactly if no branch is open. -/
theorem outer_step_level (gait : Gait σ π) (w : Walker σ π) {op : Op} (flat : op.rise = 0) :
    (w.step gait op).outer = if w.saved.length = 0 then gait.move w.outer op else w.outer := by
  rw [outer, outer, (w.step_level gait flat).1, w.here_step gait flat]
  -- Only outside of all branches the outermost pose is the present one.
  cases w.saved with
  | nil => rfl
  | cons pose below => rw [List.getLastD_cons, List.getLastD_cons]; rfl

/-- Only the trunk of a word moves the outer pose. -/
theorem outer_walk (gait : Gait σ π) (t : SymbolTable) (word : Word) (w : Walker σ π) :
    (w.walk gait (t.ops word)).outer =
      (t.ops (t.trunkFrom w.saved.length word)).foldl gait.move w.outer := by
  -- The open branches are counted by the saved poses, matched or not.
  induction word generalizing w with
  | nil => rfl
  | cons symbol rest ih =>
    rw [SymbolTable.ops_cons, walk_cons, ih]
    rcases (t.op symbol).cases_rise with saves | returns | flat
    · rw [saves, t.trunkFrom_push saves, outer_step_push]
      rfl
    · rw [returns, t.trunkFrom_pop returns, (w.outer_step_pop gait).1, (w.outer_step_pop gait).2]
    · rw [(w.step_level gait flat).1, w.outer_step_level gait flat, t.trunkFrom_level flat,
        SymbolTable.ops_append, List.foldl_append]
      split
      · rfl
      · rfl

/-- A walk over a balanced word ends where its trunk leads. -/
theorem here_walk_of_balanced (gait : Gait σ π) {t : SymbolTable} {word : Word}
    (balanced : Balanced (t.ops word)) (pose : σ) :
    ((start pose).walk gait (t.ops word)).here = (t.ops (t.trunk word)).foldl gait.move pose := by
  -- With nothing saved at the end, the outer pose is the present one.
  have level := (walk_balanced gait balanced (start pose)).1
  have outside := outer_walk gait t word (start pose)
  rw [outer, level] at outside
  exact outside

end Walker

namespace Grammar.KeepsBalance

variable {g : Grammar} {t : SymbolTable}

/-- In a round more, the trunk of a symbol is made of the trunks that its replacement grows. -/
theorem trunk_rounds_succ (keeps : g.KeepsBalance t) (n : Nat) (symbol : Char) :
    t.trunk (g.rounds (n + 1) [symbol]) =
      (t.trunk (g.replace symbol)).flatMap fun other => t.trunk (g.rounds n [other]) := by
  rw [rounds_succ_singleton]
  refine SymbolTable.trunkFrom_flatMap (fun other steep => ?_) (fun other flat => ?_) 0 _
  -- A symbol that saves or takes back is not replaced by any rule.
  · rcases keeps.replace_cases other with same | ⟨flat, -⟩
    · exact rounds_of_replace_self same n
    · exact absurd flat steep
  · exact keeps.balanced_rounds n (Balanced.singleton flat)

/-- A symbol with a trunk of as many such symbols has a trunk of a power of them. -/
theorem trunk_rounds_of_replicate (keeps : g.KeepsBalance t) {symbol : Char} {factor : Nat}
    (flat : (t.op symbol).rise = 0)
    (round : t.trunk (g.replace symbol) = List.replicate factor symbol) (n : Nat) :
    t.trunk (g.rounds n [symbol]) = List.replicate (factor ^ n) symbol := by
  -- The trunk of a round is as many trunks of the rounds that are left.
  induction n with
  | zero => exact SymbolTable.trunk_singleton flat
  | succ n ih =>
    rw [keeps.trunk_rounds_succ, round, List.flatMap_replicate, ih,
      List.flatten_replicate_replicate, Nat.pow_succ, Nat.mul_comm]

end Grammar.KeepsBalance

/-- So many steps ahead keep the heading. -/
theorem Pose.iterate_forward (p : Pose) (distance : Float) (steps : Nat) :
    (fun pose : Pose => pose.forward distance)^[steps] p =
      { p with position :=
          (fun position => { p with position : Pose }.ahead distance)^[steps] p.position } := by
  induction steps with
  | zero => rfl
  | succ steps ih => rw [Function.iterate_succ_apply', Function.iterate_succ_apply', ih]; rfl

/-- Strokes lead as many steps ahead, and what is ignored after them leads nowhere. -/
theorem Gait.foldl_move_straight {σ π : Type} (gait : Gait σ π) (steps idle : Nat) (pose : σ) :
    (List.replicate steps Op.draw ++ List.replicate idle Op.ignore).foldl gait.move pose =
      gait.forward^[steps] pose := by
  -- Idle ops lead nowhere.
  have still (pose : σ) : (List.replicate idle Op.ignore).foldl gait.move pose = pose := by
    induction idle with
    | zero => rfl
    | succ idle ih => exact ih
  induction steps generalizing pose with
  | zero => exact still pose
  | succ steps ih => exact ih (gait.forward pose)

namespace Figure

/-- At some depth a figure ends so many steps straight ahead of where it starts. -/
def EndsAhead (figure : Figure) (depth : Int32) (steps : Nat) : Prop :=
  ∃ word, (figure.grammar.expand depth).outcome = .ok word ∧
    ∀ setup : Setup, setup.validate = .ok () →
      ∃ path, ((Plotter.ofSetup setup).interpret figure.grammar word).outcome = .ok path ∧
        path.final.heading = setup.heading ∧
        path.final.position =
          (fun position => { setup.pose with position : Pose }.ahead setup.step)^[steps]
            setup.origin

/-- A figure whose trunk is straight, but for symbols that do nothing, ends ahead of its start. -/
theorem endsAhead_of_trunk {figure : Figure} {depth : Int32} (nonneg : 0 ≤ depth)
    {steps : Nat} (idle : Nat)
    (grown : SymbolTable.standard.ops (SymbolTable.standard.trunk
      (figure.grammar.rounds depth.toInt.toNat figure.start)) =
        List.replicate steps .draw ++ List.replicate idle .ignore) :
    figure.EndsAhead depth steps := by
  refine ⟨_, Grammar.expand_eq_ok_iff.2 ⟨nonneg, rfl⟩, fun setup valid => ?_⟩
  -- Whatever the settings are, expansions of a figure are drawn.
  have drawn := congrArg Run.outcome (figure.interpret_rounds depth.toInt.toNat valid)
  refine ⟨_, drawn, ?_⟩
  -- The walk ends where the trunk leads, which is straight ahead.
  have final := Walker.here_walk_of_balanced (Pose.gait setup.step figure.grammar.angle)
    (figure.balanced_rounds depth.toInt.toNat) setup.pose
  rw [grown, Gait.foldl_move_straight] at final
  have ahead := final.trans (Pose.iterate_forward setup.pose setup.step steps)
  exact ⟨congrArg Pose.heading ahead, congrArg Pose.position ahead⟩

/-- The first plant has three strokes of its trunk for every one that a round replaces. -/
theorem trunk_tree1 (n : Nat) :
    SymbolTable.standard.trunk (tree1.grammar.rounds n tree1.start) =
      List.replicate (3 ^ n) 'F' := by
  refine tree1.keepsBalance.trunk_rounds_of_replicate rfl ?_ n
  -- Of the five strokes of its successor, two stand in branches.
  rw [Grammar.replace_eq_find?]
  decide

/-- The second plant has two, since it forks at the third one. -/
theorem trunk_tree2 (n : Nat) :
    SymbolTable.standard.trunk (tree2.grammar.rounds n tree2.start) =
      List.replicate (2 ^ n) 'F' := by
  refine tree2.keepsBalance.trunk_rounds_of_replicate rfl ?_ n
  -- Two strokes of its successor stand outside of branches.
  rw [Grammar.replace_eq_find?]
  decide

/-- The third plant has two more with every round, and its bud. -/
theorem trunk_tree3 (n : Nat) :
    SymbolTable.standard.trunk (tree3.grammar.rounds n tree3.start) =
      List.replicate (2 * n) 'F' ++ ['X'] := by
  have stroke (n : Nat) : tree3.grammar.rounds n ['F'] = ['F'] :=
    Grammar.rounds_of_replace_self (by rw [Grammar.replace_eq_find?]; rfl) n
  have bud : SymbolTable.standard.trunk (tree3.grammar.replace 'X') = ['F', 'F', 'X'] := by
    rw [Grammar.replace_eq_find?]
    decide
  -- Only the bud grows, and it puts two strokes before the trunk that it grows in later rounds.
  change SymbolTable.standard.trunk (tree3.grammar.rounds n ['X']) = _
  induction n with
  | zero => rfl
  | succ n ih =>
    rw [tree3.keepsBalance.trunk_rounds_succ, bud]
    simp only [List.flatMap_cons, List.flatMap_nil, stroke, ih, List.append_nil]
    rfl

/--
Three plants end on their trunk at every depth, in the very heading in which they start.

The first and the second are powers of three and of two steps high, and the third grows by two
steps with every round.
-/
theorem plants_end_ahead (depth : Int32) (nonneg : 0 ≤ depth) :
    tree1.EndsAhead depth (3 ^ depth.toInt.toNat) ∧
      tree2.EndsAhead depth (2 ^ depth.toInt.toNat) ∧
      tree3.EndsAhead depth (2 * depth.toInt.toNat) := by
  have strokes (steps : Nat) : SymbolTable.standard.ops (List.replicate steps 'F') =
      List.replicate steps .draw := List.map_replicate
  -- Only the third plant has a symbol on its trunk that does nothing.
  refine ⟨endsAhead_of_trunk nonneg 0 ?_, endsAhead_of_trunk nonneg 0 ?_,
    endsAhead_of_trunk nonneg 1 ?_⟩
  · rw [trunk_tree1, strokes, List.replicate_zero, List.append_nil]
  · rw [trunk_tree2, strokes, List.replicate_zero, List.append_nil]
  · rw [trunk_tree3, SymbolTable.ops_append, strokes]
    rfl

/-- At its second depth, the third plant ends four steps ahead of the origin. -/
theorem plants_end_ahead_second :
    (0 : Int32) ≤ 2 ∧ Setup.standard.validate = .ok () ∧
      ∃ word path, (tree3.grammar.expand 2).outcome = .ok word ∧
        (Plotter.standard.interpret tree3.grammar word).outcome = .ok path ∧
        path.final.heading = 0 ∧
        path.final.position =
          ((((Pose.home.forward 10).forward 10).forward 10).forward 10).position := by
  have depth : (0 : Int32) ≤ 2 := by decide
  have valid : Setup.standard.validate = .ok () := by rfl
  obtain ⟨-, -, word, expanded, draws⟩ := plants_end_ahead 2 depth
  obtain ⟨path, drawn, heading, position⟩ := draws .standard valid
  exact ⟨depth, valid, word, path, expanded, drawn, heading, position⟩

end Figure

end Fractal
