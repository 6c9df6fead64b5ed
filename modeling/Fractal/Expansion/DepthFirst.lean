import Fractal.Expansion

/-!
The growth of a single symbol, followed to the end before that of the next one.

Rounds go through a whole word before they come back to its first symbol. Main statement: they give
the same word as growing every symbol on its own.
-/

namespace Fractal

namespace Grammar

/-- The word that one symbol grows into in so many generations. -/
def grow (g : Grammar) : Nat → Char → Word
  | 0, symbol => [symbol]
  | n + 1, symbol => (g.replace symbol).flatMap (g.grow n)

/-- Rounds of rewriting grow every symbol of a word on its own. -/
theorem rounds_eq_flatMap_grow (g : Grammar) (n : Nat) (word : Word) :
    g.rounds n word = word.flatMap (g.grow n) := by
  induction n generalizing word with
  | zero => simp [grow]
  | succ n ih =>
    -- The first round puts the successors side by side, and the others grow them apart.
    rw [rounds_succ, ih, rewrite, List.flatMap_assoc]
    rfl

end Grammar

end Fractal
