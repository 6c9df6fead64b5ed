import Fractal.Figure
import Fractal.Proofs.Expansion
import Fractal.Proofs.Lattice.Rotation

/-!
Outlines on the triangular lattice that close.

A rule may replace a stroke by strokes that lead as far as some longer one, and every other symbol
by symbols that lead where it leads. Main statement: the Koch snowflake and the Sierpinski triangle
come back to where they start after any number of rounds, with the net turn of their start words.
-/

namespace Fractal

/-- Without steps to saved poses, a walk ends where its motions lead. -/
theorem Walker.here_walk_of_level {σ π : Type} (gait : Gait σ π) (w : Walker σ π) {ops : List Op}
    (level : ∀ op ∈ ops, op.rise = 0) : (w.walk gait ops).here = ops.foldl gait.move w.here := by
  induction ops generalizing w with
  | nil => rfl
  | cons op rest ih =>
    -- Without saves and returns the stack plays no part in where the walk goes.
    rw [walk_cons, ih _ fun other member => level other (List.mem_cons_of_mem _ member),
      here_step gait w (level op List.mem_cons_self), List.foldl_cons]

namespace TriangularLattice

/-- Steps that are so many times as long, with turns by a sixth of a full turn. -/
def stretched (scale : Int) : Gait LatticePose LatticePoint :=
  { gait with
    forward := fun pose => { pose with position := pose.position + scale • pose.heading } }

/-- A stroke leads as many times as far. -/
theorem stretched_draw (scale : Int) (pose : LatticePose) : (stretched scale).move pose .draw =
    { pose with position := pose.position + scale • pose.heading } := rfl

/-- A turn counter-clockwise is the same with steps of any length. -/
theorem stretched_turnLeft (scale : Int) (pose : LatticePose) :
    (stretched scale).move pose .turnLeft = { pose with heading := left pose.heading } := rfl

/-- A turn clockwise is the same with steps of any length. -/
theorem stretched_turnRight (scale : Int) (pose : LatticePose) :
    (stretched scale).move pose .turnRight = { pose with heading := right pose.heading } := rfl

/-- What is ignored leads nowhere. -/
theorem stretched_ignore (scale : Int) (pose : LatticePose) :
    (stretched scale).move pose .ignore = pose := rfl

/-- The steps that are as long as before are those of the lattice. -/
theorem stretched_one : stretched 1 = gait := by
  simp only [stretched, one_smul]
  rfl

/-- Where a word leads with steps of some length. -/
def travel (scale : Int) (pose : LatticePose) (word : Word) : LatticePose :=
  (SymbolTable.standard.ops word).foldl (stretched scale).move pose

/-- The second of two words leads on from where the first leads. -/
theorem travel_append (scale : Int) (pose : LatticePose) (first second : Word) :
    travel scale pose (first ++ second) = travel scale (travel scale pose first) second := by
  rw [travel, SymbolTable.ops_append, List.foldl_append]
  rfl

/-- The first symbol of a word leads to where the others begin. -/
theorem travel_cons (scale : Int) (pose : LatticePose) (symbol : Char) (word : Word) :
    travel scale pose (symbol :: word) = travel scale (travel scale pose [symbol]) word :=
  travel_append scale pose [symbol] word

/-- How long the steps are matters to strokes alone. -/
theorem travel_singleton_of_ne (scale other : Int) (pose : LatticePose) {symbol : Char}
    (differs : symbol ≠ 'F') : travel scale pose [symbol] = travel other pose [symbol] := by
  change (stretched scale).move pose (SymbolTable.standard.op symbol) =
    (stretched other).move pose (SymbolTable.standard.op symbol)
  rcases SymbolTable.standard.op_cases symbol with ignored | bound
  -- A symbol without a meaning leads nowhere, at any scale.
  · rw [ignored]
    rfl
  -- All customary symbols but one turn, or save a pose and take one back.
  · generalize SymbolTable.standard.op symbol = op at bound ⊢
    simp only [SymbolTable.standard, SymbolTable.customary, List.mem_cons, Prod.mk.injEq,
      List.not_mem_nil, or_false] at bound
    rcases bound with ⟨stroke, -⟩ | ⟨-, rfl⟩ | ⟨-, rfl⟩ | ⟨-, rfl⟩ | ⟨-, rfl⟩
    · exact absurd stroke differs
    all_goals rfl

end TriangularLattice

namespace Grammar

open TriangularLattice

/-- Whether the symbols of a word leave no gaps and know of no saved poses. -/
def isPlain (word : Word) : Bool :=
  word.all fun symbol => (SymbolTable.standard.op symbol).isPlain

/-- A grammar whose rounds only enlarge an outline, each by the same factor. -/
structure Enlarges (g : Grammar) (factor : Int) : Prop where
  /-- The start word leaves no gaps and knows of no saved poses. -/
  start : isPlain g.start
  /-- There is a stroke to start from. -/
  drawn : 'F' ∈ g.start
  /-- The start word leads back to where it begins. -/
  closed : ∀ scale pose, (travel scale pose g.start).position = pose.position
  /-- Strokes are replaced by words with strokes. -/
  strokes : ∃ rule ∈ g.rules.toList, rule.predecessor = 'F' ∧ 'F' ∈ rule.successor
  /-- The rules lead to no gaps and branches either. -/
  plain : ∀ rule ∈ g.rules.toList, isPlain rule.successor
  /-- A successor turns as much as its predecessor. -/
  turns : ∀ rule ∈ g.rules.toList,
    Op.turns (SymbolTable.standard.ops rule.successor) =
      Op.turns (SymbolTable.standard.ops [rule.predecessor])
  /-- A successor leads to where its predecessor does with steps as much longer. -/
  travels : ∀ rule ∈ g.rules.toList, ∀ scale pose,
    travel scale pose rule.successor = travel (factor * scale) pose [rule.predecessor]

namespace Enlarges

variable {g : Grammar} {factor : Int}

/-- A stroke is replaced by the successor of the rule for strokes. -/
theorem replace_stroke (enlarges : g.Enlarges factor) :
    ∃ rule ∈ g.rules.toList, rule.predecessor = 'F' ∧ 'F' ∈ rule.successor ∧
      g.replace 'F' = rule.successor := by
  obtain ⟨rule, member, named, stroke⟩ := enlarges.strokes
  have found := (g.successor?_eq_some_iff 'F' _).2 ⟨rule, member, named, rfl⟩
  exact ⟨rule, member, named, stroke, by rw [replace, found, Option.getD_some]⟩

/-- What replaces a symbol leads to where it leads with longer steps. -/
theorem travel_replace (enlarges : g.Enlarges factor) (scale : Int) (pose : LatticePose)
    (symbol : Char) :
    travel scale pose (g.replace symbol) = travel (factor * scale) pose [symbol] := by
  by_cases stroke : symbol = 'F'
  -- A stroke has a rule, which leads as far as a longer stroke.
  · subst stroke
    obtain ⟨rule, member, named, -, replaced⟩ := enlarges.replace_stroke
    rw [replaced, ← named]
    exact enlarges.travels rule member scale pose
  -- Every other symbol is kept or has a rule of its own.
  · rcases g.replace_cases symbol with kept | ⟨rule, member, named, replaced⟩
    · rw [kept]
      exact travel_singleton_of_ne _ _ _ stroke
    · rw [replaced, ← named]
      exact enlarges.travels rule member scale pose

/-- A round leads to where its word leads with longer steps. -/
theorem travel_rewrite (enlarges : g.Enlarges factor) (scale : Int) (pose : LatticePose)
    (word : Word) : travel scale pose (g.rewrite word) = travel (factor * scale) pose word := by
  -- The rest of a word begins wherever its first symbol leads, so the pose is generalized.
  induction word generalizing pose with
  | nil => rfl
  | cons symbol rest ih =>
    rw [rewrite, List.flatMap_cons, travel_append, enlarges.travel_replace, travel_cons]
    exact ih _

/-- Each of many rounds makes the steps longer once more. -/
theorem travel_rounds (enlarges : g.Enlarges factor) (scale : Int) (pose : LatticePose)
    (word : Word) (n : Nat) :
    travel scale pose (g.rounds n word) = travel (factor ^ n * scale) pose word := by
  -- Every round is a change of scale, and the last one is the innermost.
  induction n generalizing word with
  | zero => rw [rounds_zero, pow_zero, one_mul]
  | succ n ih => rw [rounds_succ, ih, enlarges.travel_rewrite, ← mul_assoc, ← pow_succ']

/-- What replaces a symbol turns as much as the symbol does. -/
theorem turns_replace (enlarges : g.Enlarges factor) (symbol : Char) :
    Op.turns (SymbolTable.standard.ops (g.replace symbol)) =
      Op.turns (SymbolTable.standard.ops [symbol]) := by
  rcases g.replace_cases symbol with kept | ⟨rule, member, named, replaced⟩
  · rw [kept]
  -- A rule turns by as much as the symbol that it replaces.
  · rw [replaced, ← named]
    exact enlarges.turns rule member

/-- A round turns as much as its word does. -/
theorem turns_rewrite (enlarges : g.Enlarges factor) (word : Word) :
    Op.turns (SymbolTable.standard.ops (g.rewrite word)) =
      Op.turns (SymbolTable.standard.ops word) := by
  induction word with
  | nil => rfl
  | cons symbol rest ih =>
    -- The turns of a word are those of its symbols, taken together.
    have split : SymbolTable.standard.ops (symbol :: rest) =
        SymbolTable.standard.ops [symbol] ++ SymbolTable.standard.ops rest := rfl
    rw [rewrite, List.flatMap_cons, SymbolTable.ops_append, Op.turns_append,
      enlarges.turns_replace, split, Op.turns_append]
    exact congrArg _ ih

/-- No number of rounds changes how much a word turns. -/
theorem turns_rounds (enlarges : g.Enlarges factor) (n : Nat) (word : Word) :
    Op.turns (SymbolTable.standard.ops (g.rounds n word)) =
      Op.turns (SymbolTable.standard.ops word) := by
  have round : ∀ later, Op.turns (SymbolTable.standard.ops later) =
        Op.turns (SymbolTable.standard.ops word) →
      Op.turns (SymbolTable.standard.ops (g.rewrite later)) =
        Op.turns (SymbolTable.standard.ops word) :=
    fun later same => (enlarges.turns_rewrite later).trans same
  exact rounds_invariant round n rfl

/-- A round leads to no gaps and branches. -/
theorem isPlain_rewrite (enlarges : g.Enlarges factor) (word : Word) (plain : isPlain word) :
    isPlain (g.rewrite word) := by
  refine List.all_eq_true.2 fun symbol member => ?_
  obtain ⟨before, present, grown⟩ := List.mem_flatMap.1 member
  rcases g.replace_cases before with kept | ⟨rule, declared, -, replaced⟩
  -- A symbol that stays was plain before.
  · rw [kept, List.mem_singleton] at grown
    exact List.all_eq_true.1 plain symbol (grown ▸ present)
  -- One that a rule puts in is plain by the rule.
  · rw [replaced] at grown
    exact List.all_eq_true.1 (enlarges.plain rule declared) symbol grown

/-- No number of rounds leads to gaps and branches. -/
theorem isPlain_rounds (enlarges : g.Enlarges factor) (n : Nat) :
    isPlain (g.rounds n g.start) :=
  rounds_invariant enlarges.isPlain_rewrite n enlarges.start

/-- There are strokes after any number of rounds. -/
theorem drawn_rounds (enlarges : g.Enlarges factor) (n : Nat) : 'F' ∈ g.rounds n g.start := by
  obtain ⟨rule, -, -, stroke, replaced⟩ := enlarges.replace_stroke
  -- The rule for strokes puts in a stroke, so one is never lost.
  have round : ∀ word, 'F' ∈ word → 'F' ∈ g.rewrite word :=
    fun word drawn => List.mem_flatMap.2 ⟨'F', drawn, replaced ▸ stroke⟩
  exact rounds_invariant round n enlarges.drawn

/-- The operations after any number of rounds leave no gaps and know of no saved poses. -/
theorem ops_rounds (enlarges : g.Enlarges factor) (n : Nat) :
    ∀ op ∈ SymbolTable.standard.ops (g.rounds n g.start), op.isPlain :=
  List.forall_mem_map.2 (List.all_eq_true.1 (enlarges.isPlain_rounds n))

/-- After any number of rounds, the strokes add up to nothing. -/
theorem sum_strides_rounds (enlarges : g.Enlarges factor) (n : Nat) :
    let ops := SymbolTable.standard.ops (g.rounds n g.start)
    (strides ops ops.length).sum = 0 := by
  intro ops
  have plain := enlarges.ops_rounds n
  -- Plain ops neither save nor return.
  have level : ∀ op ∈ ops, op.rise = 0 := by
    intro op member
    have kind := plain op member
    cases op <;> first | rfl | cases kind
  -- The pen is where the start word leads with steps that are longer by every round.
  have arrives : ((Walker.start LatticePose.home).walk gait ops).here =
      travel (factor ^ n) .home g.start := by
    rw [Walker.here_walk_of_level gait _ level, ← stretched_one]
    exact (enlarges.travel_rounds 1 .home g.start n).trans (by rw [mul_one])
  rw [← (walk_strides plain).position, arrives]
  exact enlarges.closed _ _

end Enlarges

/-- A round of the Koch snowflake makes it three times as large. -/
theorem kochSnowflake_enlarges : Figure.kochSnowflake.grammar.Enlarges 3 where
  start := rfl
  drawn := by decide
  closed scale pose := by
    have ops : SymbolTable.standard.ops Figure.kochSnowflake.grammar.start =
        [.draw, .turnLeft, .turnLeft, .draw, .turnLeft, .turnLeft, .draw] := by decide
    -- The three sides look in directions a third of a full turn apart.
    have thirds := thirds_sum (left (left pose.heading))
    rw [right_left, right_left] at thirds
    rw [travel, ops]
    simp only [List.foldl_cons, List.foldl_nil, stretched_draw, stretched_turnLeft]
    rw [add_assoc, add_assoc, ← smul_add, ← smul_add, ← add_assoc, thirds, smul_zero, add_zero]
  strokes := by decide
  plain := by decide
  turns := by decide
  travels rule member scale pose := by
    -- There is one rule, which puts a tip on the middle of a stroke.
    obtain rfl : rule = ⟨'F', "F-F++F-F".toList⟩ := List.mem_singleton.1 member
    have ops : SymbolTable.standard.ops "F-F++F-F".toList =
        [.draw, .turnRight, .draw, .turnLeft, .turnLeft, .draw, .turnRight, .draw] := by decide
    have op : SymbolTable.standard.ops ['F'] = [.draw] := by decide
    rw [travel, travel, ops, op]
    simp only [List.foldl_cons, List.foldl_nil, stretched_draw, stretched_turnLeft,
      stretched_turnRight, right_left, left_right]
    -- The two strokes of the tip lead as far as one stroke ahead.
    congr 1
    calc pose.position + scale • pose.heading + scale • right pose.heading +
          scale • left pose.heading + scale • pose.heading
        = pose.position + (scale • pose.heading +
            scale • (left pose.heading + right pose.heading) + scale • pose.heading) := by module
      _ = pose.position + (3 * scale) • pose.heading := by
        rw [left_add_right]
        module

/-- A round of the Sierpinski triangle makes it twice as large. -/
theorem sierpinskiTriangle_enlarges : Figure.sierpinskiTriangle.grammar.Enlarges 2 where
  start := rfl
  drawn := by decide
  closed scale pose := by
    have ops : SymbolTable.standard.ops Figure.sierpinskiTriangle.grammar.start =
        [.draw, .ignore, .draw, .turnRight, .turnRight, .draw, .draw, .turnRight, .turnRight,
          .draw, .draw] := by decide
    -- Each of the three sides has two strokes, since the placeholder leads nowhere.
    have thirds := thirds_sum (right (right pose.heading))
    rw [left_right, left_right] at thirds
    rw [travel, ops]
    simp only [List.foldl_cons, List.foldl_nil, stretched_draw, stretched_turnRight,
      stretched_ignore]
    calc pose.position + scale • pose.heading + scale • pose.heading +
          scale • right (right pose.heading) + scale • right (right pose.heading) +
          scale • right (right (right (right pose.heading))) +
          scale • right (right (right (right pose.heading)))
        = pose.position + (2 * scale) • (right (right (right (right pose.heading))) +
            right (right pose.heading) + pose.heading) := by module
      _ = pose.position := by rw [thirds, smul_zero, add_zero]
  strokes := by decide
  plain := by decide
  turns := by decide
  travels rule member scale pose := by
    rcases List.mem_pair.1 member with rfl | rfl
    -- A stroke is doubled.
    · have ops : SymbolTable.standard.ops "FF".toList = [.draw, .draw] := by decide
      have op : SymbolTable.standard.ops ['F'] = [.draw] := by decide
      rw [travel, travel, ops, op]
      simp only [List.foldl_cons, List.foldl_nil, stretched_draw]
      congr 1
      module
    -- The placeholder grows into three sides, which lead nowhere as it does itself.
    · have ops : SymbolTable.standard.ops "--FXF++FXF++FXF--".toList =
          [.turnRight, .turnRight, .draw, .ignore, .draw, .turnLeft, .turnLeft, .draw, .ignore,
            .draw, .turnLeft, .turnLeft, .draw, .ignore, .draw, .turnRight, .turnRight] := by
        decide
      have op : SymbolTable.standard.ops ['X'] = [.ignore] := by decide
      rw [travel, travel, ops, op]
      simp only [List.foldl_cons, List.foldl_nil, stretched_draw, stretched_turnLeft,
        stretched_turnRight, stretched_ignore, right_left, left_right]
      -- Two strokes each way round the triangle come back to where they started.
      have sides : pose.position + scale • right (right pose.heading) +
          scale • right (right pose.heading) + scale • pose.heading + scale • pose.heading +
          scale • left (left pose.heading) + scale • left (left pose.heading) = pose.position := by
        calc _ = pose.position + (2 * scale) • (right (right pose.heading) + pose.heading +
              left (left pose.heading)) := by module
          _ = pose.position := by rw [thirds_sum, smul_zero, add_zero]
      rw [sides]

end Grammar

namespace TriangularLattice

/-- In every round of an enlarged outline, the strokes of the pen lead back to where it started. -/
theorem closes_of_enlarges {g : Grammar} {factor : Int} (enlarges : g.Enlarges factor) (n : Nat) :
    let ops := SymbolTable.standard.ops (g.rounds n g.start)
    let segments := ((Walker.start .home).walk gait ops).segments
    segments.map Segment.displacement = strides ops ops.length ∧
      ∃ first last, segments.head? = some first ∧ segments.getLast? = some last ∧
        last.stop = first.start := by
  intro ops segments
  have plain := enlarges.ops_rounds n
  -- The outline has a stroke, and so a first and a last segment.
  have draws : Op.draw ∈ ops := List.mem_map.2 ⟨'F', enlarges.drawn_rounds n, by decide⟩
  exact ⟨(walk_strides plain).displacements,
    segments_close plain draws (enlarges.sum_strides_rounds n)⟩

/--
The outlines of the Koch snowflake and of the Sierpinski triangle close at every depth.

Their turns are sixths of a full turn. Each segment is the step of a unit length that the turns
before it give. All steps add up to nothing, whether as points of the lattice or as powers of a
primitive sixth root of unity, so the last segment ends where the first one starts. The whole word
turns as much as the start word does.
-/
theorem outline_closes (figure : Figure)
    (outline : figure = .kochSnowflake ∨ figure = .sierpinskiTriangle) (depth : Int32)
    (nonneg : 0 ≤ depth) :
    figure.grammar.angle = 60 ∧
    ∃ word, (figure.grammar.expand depth).outcome = .ok word ∧
      let ops := SymbolTable.standard.ops word
      let segments := ((Walker.start .home).walk gait ops).segments
      segments.map Segment.displacement = strides ops ops.length ∧
        (strides ops ops.length).sum = 0 ∧
        (∃ first last, segments.head? = some first ∧ segments.getLast? = some last ∧
          last.stop = first.start) ∧
        Op.turns ops = Op.turns (SymbolTable.standard.ops figure.start) ∧
        ∀ (K : Type) [Field K] (root : K), IsPrimitiveRoot root 6 →
          ((Op.draws ops ops.length).map fun index =>
            root ^ Op.turns (ops.take index)).sum = 0 := by
  refine ⟨by rcases outline with rfl | rfl <;> rfl, _,
    by rw [Grammar.expand_of_nonneg _ (Int32.not_lt.2 nonneg)], ?_⟩
  intro ops segments
  -- Both figures are enlarged by their rounds, each by its own factor.
  obtain ⟨factor, enlarges⟩ : ∃ factor, figure.grammar.Enlarges factor := by
    rcases outline with rfl | rfl
    · exact ⟨3, Grammar.kochSnowflake_enlarges⟩
    · exact ⟨2, Grammar.sierpinskiTriangle_enlarges⟩
  have closed := enlarges.sum_strides_rounds depth.toInt.toNat
  obtain ⟨displacements, ends⟩ := closes_of_enlarges enlarges depth.toInt.toNat
  refine ⟨displacements, closed, ends, enlarges.turns_rounds _ _, fun K _ root primitive => ?_⟩
  -- The sum of powers is the image of the sum of strides, which vanishes.
  rw [sum_strides primitive, closed, map_zero]

/-- The Sierpinski triangle of the second order, with complex numbers for its steps. -/
theorem outline_closes_second :
    0 ≤ (2 : Int32) ∧ Figure.sierpinskiTriangle.grammar.angle = 60 ∧
      ∃ word, (Figure.sierpinskiTriangle.grammar.expand 2).outcome = .ok word ∧
        let ops := SymbolTable.standard.ops word
        (strides ops ops.length).sum = 0 ∧ Op.turns ops = -4 ∧
          ((Op.draws ops ops.length).map fun index =>
            Complex.exp (2 * Real.pi * Complex.I / 6) ^ Op.turns (ops.take index)).sum = 0 := by
  have nonneg : 0 ≤ (2 : Int32) := by decide
  obtain ⟨sixth, word, expanded, -, closed, -, turns, powers⟩ :=
    outline_closes .sierpinskiTriangle (.inr rfl) 2 nonneg
  -- The turns of the start word are counted, two to the right at two corners.
  have start : Op.turns (SymbolTable.standard.ops Figure.sierpinskiTriangle.start) = -4 := by decide
  exact ⟨nonneg, sixth, word, expanded, closed, turns.trans start,
    powers ℂ _ (Complex.isPrimitiveRoot_exp 6 (by decide))⟩

end TriangularLattice

end Fractal
