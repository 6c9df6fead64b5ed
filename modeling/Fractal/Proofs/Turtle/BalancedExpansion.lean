import Fractal.Proofs.Expansion
import Fractal.Proofs.Turtle.Interpretation

/-!
Expansions of balanced words by balanced rules.

A round puts a balanced word in the place of a symbol that neither saves nor takes back, at any
depth of the branches around it. Main statement: no such expansion is ever refused for its returns.
-/

namespace Fractal

/-- Rules with balanced successors, none of which replaces a symbol that saves or takes back. -/
structure Grammar.KeepsBalance (g : Grammar) (t : SymbolTable) : Prop where
  /-- What a rule writes is balanced. -/
  successors : ∀ rule ∈ g.rules.toList, Balanced (t.ops rule.successor)
  /-- What a rule replaces neither saves a pose nor takes one back. -/
  predecessors : ∀ rule ∈ g.rules.toList, (t.op rule.predecessor).rise = 0

namespace Grammar.KeepsBalance

variable {g : Grammar} {t : SymbolTable}

/-- A symbol stays as it is, or a symbol without rise gives way to a balanced word. -/
theorem replace_cases (keeps : g.KeepsBalance t) (symbol : Char) :
    g.replace symbol = [symbol] ∨
      (t.op symbol).rise = 0 ∧ Balanced (t.ops (g.replace symbol)) := by
  -- A symbol that is replaced is the predecessor of the rule that replaces it.
  rcases g.replace_cases symbol with same | ⟨rule, declared, named, same⟩
  · exact .inl same
  · exact .inr ⟨named ▸ keeps.predecessors rule declared, same ▸ keeps.successors rule declared⟩

/-- A round needs no more saved poses than the word did, and ends at the same height. -/
theorem rewrite (keeps : g.KeepsBalance t) (word : Word) {saved : Int}
    (enough : Op.Enough saved (t.ops word)) :
    Op.Enough saved (t.ops (g.rewrite word)) ∧
      Op.height (t.ops (g.rewrite word)) = Op.height (t.ops word) := by
  -- The number of poses that the rest of the word finds saved depends on what comes before it.
  induction word generalizing saved with
  | nil => exact ⟨enough, rfl⟩
  | cons symbol rest ih =>
    obtain ⟨nonneg, later⟩ := Op.enough_cons.1 enough
    obtain ⟨enoughLater, level⟩ := ih later
    have split : g.rewrite (symbol :: rest) = g.replace symbol ++ g.rewrite rest := rfl
    rw [split, SymbolTable.ops_cons, SymbolTable.ops_append, Op.enough_append, Op.height_append,
      Op.height_cons, level]
    rcases keeps.replace_cases symbol with same | ⟨flat, balanced⟩
    -- A symbol that stays needs what it needed before.
    · have alone : t.ops (g.replace symbol) = [t.op symbol] := by rw [same]; rfl
      rw [alone, Op.enough_cons, Op.enough_nil, Op.height_cons, Op.height_nil, Int.add_zero]
      exact ⟨⟨⟨nonneg, by simpa using later 0⟩, enoughLater⟩, rfl⟩
    -- The balanced word in between needs nothing and leaves the height where it was.
    · rw [flat, Int.add_zero] at enoughLater
      rw [balanced.height_eq_zero, flat, Int.add_zero]
      exact ⟨⟨balanced.enough nonneg, enoughLater⟩, rfl⟩

/-- A round leads from a balanced word to a balanced word. -/
theorem balanced_rewrite (keeps : g.KeepsBalance t) (word : Word)
    (balanced : Balanced (t.ops word)) : Balanced (t.ops (g.rewrite word)) := by
  -- Being balanced is needing no saved poses and ending level, and a round keeps both.
  obtain ⟨enough, level⟩ := balanced_iff_enough.1 balanced
  obtain ⟨enoughAfter, same⟩ := keeps.rewrite word enough
  exact balanced_iff_enough.2 ⟨enoughAfter, same.trans level⟩

/-- Any number of rounds leads from a balanced word to a balanced word. -/
theorem balanced_rounds (keeps : g.KeepsBalance t) (n : Nat) {word : Word}
    (balanced : Balanced (t.ops word)) : Balanced (t.ops (g.rounds n word)) :=
  rounds_invariant keeps.balanced_rewrite n balanced

end Grammar.KeepsBalance

/--
Balanced rules expand a balanced start word to balanced words only, under any table of symbols.

Every such word is drawn under either policy, with no return unmatched and no branch left open.
-/
theorem balanced_expand (table : SymbolTable) (g : Grammar) (depth : Int32) (nonneg : 0 ≤ depth)
    (start : Balanced (table.ops g.start))
    (successors : ∀ rule ∈ g.rules.toList, Balanced (table.ops rule.successor))
    (predecessors : ∀ rule ∈ g.rules.toList,
      table.op rule.predecessor ≠ .push ∧ table.op rule.predecessor ≠ .pop) :
    ∃ word, (g.expand depth).outcome = .ok word ∧
      Balanced (table.ops word) ∧
      ∀ p : Plotter, p.table = table → p.setup.validate = .ok () →
        (p.walk g.angle word).skipped = [] ∧ (p.walk g.angle word).saved = [] ∧
          ∃ path, p.interpret g word =
            { events := [.interpreted word.length path.size], outcome := .ok path } := by
  -- An operation that neither saves nor takes back has no rise.
  have keeps : g.KeepsBalance table := by
    refine ⟨successors, fun rule declared => ?_⟩
    obtain ⟨noSave, noReturn⟩ := predecessors rule declared
    rcases (table.op rule.predecessor).cases_rise with saves | returns | level
    -- Neither a save nor a return is replaced, by assumption.
    · exact absurd saves noSave
    · exact absurd returns noReturn
    · exact level
  have balanced := keeps.balanced_rounds depth.toInt.toNat start
  refine ⟨_, by rw [g.expand_of_nonneg (Int32.not_lt.2 nonneg)], balanced, ?_⟩
  -- The settings have no part in whether the word is balanced, only the table has.
  intro p same valid
  rw [← same] at balanced
  obtain ⟨stack, notes⟩ := Plotter.walk_of_balanced balanced g.angle
  exact ⟨notes, stack, _, Plotter.interpret_of_balanced valid balanced g⟩

/-- The first plant is drawn to the tips of its third generation, and every branch is closed. -/
theorem balanced_expand_tree1 :
    0 ≤ (3 : Int32) ∧
      Balanced (SymbolTable.standard.ops Figure.tree1.grammar.start) ∧
      (∀ rule ∈ Figure.tree1.grammar.rules.toList,
        Balanced (SymbolTable.standard.ops rule.successor)) ∧
      (∀ rule ∈ Figure.tree1.grammar.rules.toList,
        SymbolTable.standard.op rule.predecessor ≠ .push ∧
          SymbolTable.standard.op rule.predecessor ≠ .pop) ∧
      Setup.standard.validate = .ok () ∧
      ∃ word, (Figure.tree1.grammar.expand 3).outcome = .ok word ∧
        (Plotter.standard.walk Figure.tree1.grammar.angle word).saved = [] ∧
        ∃ path, (Plotter.standard.interpret Figure.tree1.grammar word).outcome = .ok path := by
  have depth : 0 ≤ (3 : Int32) := by decide
  -- One stroke to begin with, and branches that are closed in the successor.
  have start : Balanced (SymbolTable.standard.ops Figure.tree1.grammar.start) := by decide
  have successors : ∀ rule ∈ Figure.tree1.grammar.rules.toList,
      Balanced (SymbolTable.standard.ops rule.successor) := by decide
  have predecessors : ∀ rule ∈ Figure.tree1.grammar.rules.toList,
      SymbolTable.standard.op rule.predecessor ≠ .push ∧
        SymbolTable.standard.op rule.predecessor ≠ .pop := by decide
  have valid : Setup.standard.validate = .ok () := by rfl
  obtain ⟨word, expanded, _, drawn⟩ := balanced_expand SymbolTable.standard Figure.tree1.grammar 3
    depth start successors predecessors
  -- Under the standard settings the third expansion is drawn.
  obtain ⟨_, stack, path, interpreted⟩ := drawn Plotter.standard rfl valid
  have outcome : (Plotter.standard.interpret Figure.tree1.grammar word).outcome = .ok path :=
    congrArg Run.outcome interpreted
  exact ⟨depth, start, successors, predecessors, valid, word, expanded, stack, path, outcome⟩

end Fractal
