import Fractal.Figure
import Fractal.Proofs.Expansion

/-!
Rounds over whole words against the growth of single symbols.

A round never reads what it writes and never looks at two symbols at once. Main statement: the
rounds of a sum of depths grow every symbol of the earlier expansion on its own, by the later depth.
-/

namespace Fractal

namespace Grammar

/-- What single symbols grow into by the declared rules, generation by generation. -/
structure Growth (g : Grammar) (grown : Nat → Char → Word) : Prop where
  /-- Before the first generation a symbol is itself. -/
  zero : ∀ symbol, grown 0 symbol = [symbol]
  /-- A symbol with a rule grows into what the symbols of the rule's successor grow into. -/
  succ_of_mem : ∀ rule ∈ g.rules.toList, ∀ n,
    grown (n + 1) rule.predecessor = rule.successor.flatMap (grown n)
  /-- A symbol without a rule never grows. -/
  succ_of_terminal : ∀ symbol, (∀ rule ∈ g.rules.toList, rule.predecessor ≠ symbol) →
    ∀ n, grown (n + 1) symbol = grown n symbol

/-- Growing symbols depth first follows the declared rules. -/
theorem growth_grow (g : Grammar) : g.Growth g.grow where
  zero _ := rfl
  succ_of_mem rule declared n := by rw [grow, replace_of_mem declared]
  succ_of_terminal symbol terminal n := by
    rw [grow, replace_of_terminal terminal, List.flatMap_singleton]

/-- The rules leave no choice in what a symbol grows into. -/
theorem Growth.eq_grow {g : Grammar} {grown : Nat → Char → Word} (growth : g.Growth grown)
    (n : Nat) : grown n = g.grow n := by
  -- A generation is determined by the one before it, whose symbols are those of a successor.
  induction n with
  | zero => exact funext growth.zero
  | succ n ih =>
    funext symbol
    by_cases ruled : ∃ rule ∈ g.rules.toList, rule.predecessor = symbol
    -- A ruled symbol grows to what the symbols of its successor have grown to.
    · obtain ⟨rule, declared, rfl⟩ := ruled
      rw [growth.succ_of_mem rule declared, g.growth_grow.succ_of_mem rule declared, ih]
    -- Any other symbol stays as it was one generation before.
    · have terminal : ∀ rule ∈ g.rules.toList, rule.predecessor ≠ symbol :=
        fun rule declared named => ruled ⟨rule, declared, named⟩
      rw [growth.succ_of_terminal symbol terminal, g.growth_grow.succ_of_terminal symbol terminal,
        ih]

/-- Rounds over a word grow every symbol of it on its own. -/
theorem Growth.rounds_eq {g : Grammar} {grown : Nat → Char → Word} (growth : g.Growth grown)
    (n : Nat) (word : Word) : g.rounds n word = word.flatMap (grown n) := by
  rw [rounds_eq_flatMap_grow, growth.eq_grow]

/-- Two depths whose sum is a depth stand for as many rounds as their sum. -/
theorem toNat_toInt_add {first second : Int32} (nonneg : 0 ≤ first) (nonneg' : 0 ≤ second)
    (within : first.toInt + second.toInt ≤ Int32.maxValue.toInt) :
    0 ≤ first + second ∧
      (first + second).toInt.toNat = first.toInt.toNat + second.toInt.toNat := by
  have largest : Int32.maxValue.toInt = 2147483647 := by decide
  rw [Int32.le_iff_toInt_le, Int32.toInt_zero] at nonneg nonneg' ⊢
  -- A sum that is not above the largest depth does not wrap around.
  have exact : (first + second).toInt = first.toInt + second.toInt := by
    rw [Int32.toInt_add]
    exact Int.bmod_eq_of_le (by omega) (by omega)
  omega

/--
Expanding in rounds is growing every symbol on its own, and depths add up.

A round over two words is a round over each of them, and over a single symbol it is one generation
of growth, so nothing that it writes is rewritten before the next round.
-/
theorem expand_add_eq_flatMap (g : Grammar) {grown : Nat → Char → Word}
    (growth : g.Growth grown) :
    (∀ first second, g.rewrite (first ++ second) = g.rewrite first ++ g.rewrite second) ∧
    (∀ symbol, g.rewrite [symbol] = grown 1 symbol) ∧
    ∀ earlier later : Int32, 0 ≤ earlier → 0 ≤ later →
      earlier.toInt + later.toInt ≤ Int32.maxValue.toInt →
        ∃ word, (g.expand earlier).outcome = .ok word ∧
          (g.expand (earlier + later)).outcome = .ok (word.flatMap (grown later.toInt.toNat)) := by
  refine ⟨g.rewrite_append, fun symbol => ?_, fun earlier later nonneg nonneg' within => ?_⟩
  -- One round on one symbol is its first generation.
  · have round := growth.rounds_eq 1 [symbol]
    rwa [rounds_succ, rounds_zero, List.flatMap_singleton] at round
  -- The two depths together are a depth, and its rounds are the earlier and the later ones.
  · obtain ⟨sum, counted⟩ := toNat_toInt_add nonneg nonneg' within
    refine ⟨g.rounds earlier.toInt.toNat g.start, ?_, ?_⟩
    · rw [g.expand_of_nonneg (Int32.not_lt.2 nonneg)]
    -- The later rounds start from the earlier word, and there they grow every symbol apart.
    · rw [g.expand_of_nonneg (Int32.not_lt.2 sum), counted, rounds_add, growth.rounds_eq]

/-- The second expansion of the dragon curve is its first one, each symbol grown once more. -/
theorem expand_add_dragonCurve :
    Figure.dragonCurve.grammar.Growth Figure.dragonCurve.grammar.grow ∧
      0 ≤ (1 : Int32) ∧ (1 : Int32).toInt + (1 : Int32).toInt ≤ Int32.maxValue.toInt ∧
      ∃ word, (Figure.dragonCurve.grammar.expand 1).outcome = .ok word ∧
        (Figure.dragonCurve.grammar.expand 2).outcome =
          .ok (word.flatMap (Figure.dragonCurve.grammar.grow 1)) := by
  have growth := Figure.dragonCurve.grammar.growth_grow
  have nonneg : 0 ≤ (1 : Int32) := by decide
  -- One and one is far below the largest depth.
  have within : (1 : Int32).toInt + (1 : Int32).toInt ≤ Int32.maxValue.toInt := by decide
  obtain ⟨-, -, sums⟩ := Figure.dragonCurve.grammar.expand_add_eq_flatMap growth
  exact ⟨growth, nonneg, within, sums 1 1 nonneg nonneg within⟩

end Grammar

end Fractal
