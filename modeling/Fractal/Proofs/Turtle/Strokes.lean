import Fractal.Proofs.Rendering
import Fractal.Proofs.Turtle.Continuation

/-!
How many strokes the figures of the catalogue are drawn with.

A round replaces every symbol alone, so the strokes that symbols become add up along their
replacements. Main statement: every figure is drawn at every depth, with as many segments as a
closed form of the depth says.
-/

namespace Fractal

/-- The numbers of strokes that the symbols of a grammar have become after so many rounds. -/
structure Grammar.Strokes (g : Grammar) (t : SymbolTable) (amount : Nat → Char → Nat) : Prop where
  /-- Before any round a symbol is a stroke if it draws. -/
  now : ∀ symbol, amount 0 symbol = if t.op symbol = .draw then 1 else 0
  /-- A symbol without a rule becomes nothing else. -/
  kept : ∀ n symbol, (∀ rule ∈ g.rules.toList, rule.predecessor ≠ symbol) →
    amount (n + 1) symbol = amount n symbol
  /-- All other symbols become what their successors do in one round less. -/
  replaced : ∀ n, ∀ rule ∈ g.rules.toList,
    amount (n + 1) rule.predecessor = (rule.successor.map (amount n)).sum

namespace Grammar.Strokes

variable {g : Grammar} {t : SymbolTable} {amount : Nat → Char → Nat}

/-- In a round more, a symbol becomes what the symbols of its replacement do. -/
theorem replace (strokes : g.Strokes t amount) (n : Nat) (symbol : Char) :
    amount (n + 1) symbol = ((g.replace symbol).map (amount n)).sum := by
  by_cases terminal : ∀ rule ∈ g.rules.toList, rule.predecessor ≠ symbol
  -- Without a rule the symbol has the same amount in the next round.
  · rw [replace_of_terminal terminal, strokes.kept n symbol terminal]
    exact List.sum_singleton.symm
  -- A rule spreads the amount over the symbols of its successor.
  · push Not at terminal
    obtain ⟨rule, declared, rfl⟩ := terminal
    rw [replace_of_mem declared, strokes.replaced n rule declared]

/-- The amounts of the symbols of a word are the same after a round, with one round less to go. -/
theorem rewrite (strokes : g.Strokes t amount) (n : Nat) (word : Word) :
    ((g.rewrite word).map (amount n)).sum = (word.map (amount (n + 1))).sum := by
  -- The sum over the new word is the sum of the sums over the replacements.
  rw [Grammar.rewrite, List.map_flatMap, List.flatMap, List.sum_flatten, List.map_map]
  exact congrArg List.sum (List.map_congr_left fun symbol _ => (strokes.replace n symbol).symm)

/-- A word becomes as many strokes as its symbols alone. -/
theorem count_rounds (strokes : g.Strokes t amount) (n : Nat) (word : Word) :
    (t.ops (g.rounds n word)).count .draw = (word.map (amount n)).sum := by
  -- A round done is a round less to go, so the word changes with the number of rounds.
  induction n generalizing word with
  | zero =>
    -- A symbol is counted exactly if it draws.
    have one : amount 0 = fun symbol => if t.op symbol = .draw then 1 else 0 := funext strokes.now
    rw [rounds_zero, one, SymbolTable.ops]
    induction word with
    | nil => rfl
    | cons symbol rest ih => simp [List.count_cons, ih, Nat.add_comm]
  | succ n ih => rw [rounds_succ, ih, strokes.rewrite]

end Grammar.Strokes

namespace Figure

/-- The number of strokes that a symbol of a figure becomes in so many rounds. -/
def strokesOf (figure : Figure) (n : Nat) (symbol : Char) : Nat :=
  match figure with
  | kochSnowflake => if symbol = 'F' then 4 ^ n else 0
  | dragonCurve => if symbol = 'F' then 1 else if symbol = 'X' ∨ symbol = 'Y' then 2 ^ n - 1 else 0
  | sierpinskiTriangle =>
    if symbol = 'F' then 2 ^ n else if symbol = 'X' then 6 * (3 ^ n - 2 ^ n) else 0
  | hilbertCurve => if symbol = 'F' then 1 else if symbol = 'X' ∨ symbol = 'Y' then 4 ^ n - 1 else 0
  | tree1 | tree2 => if symbol = 'F' then 5 ^ n else 0
  | tree3 => if symbol = 'F' then 1 else if symbol = 'X' then 3 ^ n - 1 else 0
  | tree4 => if symbol = 'F' then 7 ^ n else 0

/-- The number of strokes of a figure after so many rounds. -/
def strokes : Figure → Nat → Nat
  | kochSnowflake, n => 3 * 4 ^ n
  | dragonCurve, n => 2 ^ n
  | sierpinskiTriangle, n => 6 * 3 ^ n
  | hilbertCurve, n => 4 ^ n - 1
  | tree1, n => 5 ^ n
  | tree2, n => 5 ^ n
  | tree3, n => 3 ^ n - 1
  | tree4, n => 7 ^ n

/-- What replaces a symbol becomes as many strokes in one round less. -/
theorem strokesOf_successor (figure : Figure) (n : Nat) :
    ∀ rule ∈ figure.rules.toList, figure.strokesOf (n + 1) rule.predecessor =
      (rule.successor.map (figure.strokesOf n)).sum := by
  -- Where a smaller power is taken away from a larger one, it has to be known which is which.
  have two := Nat.one_le_two_pow (n := n)
  have three := Nat.pow_le_pow_left (show 2 ≤ 3 by decide) n
  have four := Nat.pow_le_pow_left (show 2 ≤ 4 by decide) n
  -- The equations of the table of rules are slow to derive, so its definition is put in.
  delta rules
  -- For each rule an identity between powers remains.
  cases figure <;> simp [strokesOf, Nat.pow_succ] <;> omega

/-- The rules of a figure make strokes as the closed forms of its symbols say. -/
theorem grammar_strokes (figure : Figure) :
    figure.grammar.Strokes .standard figure.strokesOf where
  now symbol := by
    -- Without a round to go, exactly the strokes count.
    simp only [SymbolTable.standard_op_eq_draw]
    cases figure <;> simp [strokesOf]
  kept n symbol terminal := by
    -- Symbols without a rule are the strokes of some figures, and those that draw nothing.
    change ∀ rule ∈ figure.rules.toList, _ at terminal
    delta rules at terminal
    cases figure <;> simp [eq_comm] at terminal <;> simp [strokesOf, terminal]
  replaced := figure.strokesOf_successor

/-- The strokes that the symbols of a start word become are those of the figure. -/
theorem sum_start (figure : Figure) (n : Nat) :
    (figure.start.map (figure.strokesOf n)).sum = figure.strokes n := by
  -- The differences of powers are natural numbers only by these bounds.
  have two := Nat.one_le_two_pow (n := n)
  have three := Nat.pow_le_pow_left (show 2 ≤ 3 by decide) n
  delta start
  cases figure <;> simp [strokesOf, strokes] <;> omega

/-- A figure has as many drawing symbols after so many rounds as its closed form says. -/
theorem count_draw_rounds (figure : Figure) (n : Nat) :
    (SymbolTable.standard.ops (figure.grammar.rounds n figure.start)).count .draw =
      figure.strokes n := by
  rw [figure.grammar_strokes.count_rounds, figure.sum_start]

/--
Every figure is drawn at every depth, with as many segments as its closed form says.

No settings with finite numbers and a positive step are refused, and neither is any return.
-/
theorem size_eq_strokes (figure : Figure) (depth : Int32) (nonneg : 0 ≤ depth) (setup : Setup)
    (origin : setup.origin.isFinite) (heading : setup.heading.isFinite)
    (step : PositiveFinite setup.step) :
    ∃ word path, (figure.grammar.expand depth).outcome = .ok word ∧
      ((Plotter.ofSetup setup).interpret figure.grammar word).outcome = .ok path ∧
      path.size = figure.strokes depth.toInt.toNat := by
  -- Settings that are finite are accepted, and the expansion of a figure is balanced.
  have valid : setup.validate = .ok () := Setup.validate_of_finite step origin heading
  have drawn := congrArg Run.outcome (figure.interpret_rounds depth.toInt.toNat valid)
  refine ⟨_, _, Grammar.expand_eq_ok_iff.2 ⟨nonneg, rfl⟩, drawn, ?_⟩
  -- The segments of a walk are those of the drawing symbols.
  exact (Walker.length_segments_walk _ _ _).trans (figure.count_draw_rounds depth.toInt.toNat)

/-- The third plant at its second depth has eight strokes, and the Hilbert curve fifteen. -/
theorem size_eq_strokes_second :
    (0 : Int32) ≤ 2 ∧ Setup.standard.origin.isFinite ∧ Setup.standard.heading.isFinite ∧
      PositiveFinite Setup.standard.step ∧
      (∃ word path, (tree3.grammar.expand 2).outcome = .ok word ∧
        (Plotter.standard.interpret tree3.grammar word).outcome = .ok path ∧ path.size = 8) ∧
      ∃ word path, (hilbertCurve.grammar.expand 2).outcome = .ok word ∧
        (Plotter.standard.interpret hilbertCurve.grammar word).outcome = .ok path ∧
        path.size = 15 := by
  have depth : (0 : Int32) ≤ 2 := by decide
  have origin : Setup.standard.origin.isFinite := by decide
  have heading : Setup.standard.heading.isFinite := by decide
  have step : PositiveFinite Setup.standard.step := by decide
  exact ⟨depth, origin, heading, step,
    size_eq_strokes tree3 2 depth .standard origin heading step,
    size_eq_strokes hilbertCurve 2 depth .standard origin heading step⟩

end Figure

end Fractal
