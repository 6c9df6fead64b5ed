import Fractal.Run

/-!
Rewriting words in rounds.

A round reads a word once from left to right. What it writes is not read again before the next
round, so every symbol of a word is replaced on its own.
-/

namespace Fractal

namespace Grammar

/-- One round: every symbol gives way to its successor, or stays when it has none. -/
def rewrite (g : Grammar) (word : Word) : Word :=
  word.flatMap g.replace

/-- So many rounds, one after the other. -/
def rounds (g : Grammar) : Nat → Word → Word
  | 0, word => word
  | n + 1, word => rounds g n (g.rewrite word)

/-- A round of rewriting does not look across a boundary between words. -/
@[simp] theorem rewrite_append (g : Grammar) (first second : Word) :
    g.rewrite (first ++ second) = g.rewrite first ++ g.rewrite second :=
  List.flatMap_append

/-- Without a round a word stays as it is. -/
@[simp] theorem rounds_zero (g : Grammar) (word : Word) : g.rounds 0 word = word := rfl

/-- The first of many rounds comes before the others. -/
theorem rounds_succ (g : Grammar) (n : Nat) (word : Word) :
    g.rounds (n + 1) word = g.rounds n (g.rewrite word) := rfl

/-- Rounds in two batches are rounds in one. -/
theorem rounds_add (g : Grammar) (m n : Nat) (word : Word) :
    g.rounds (m + n) word = g.rounds n (g.rounds m word) := by
  induction m generalizing word with
  | zero => simp
  | succ m ih => rw [Nat.succ_add, rounds_succ, rounds_succ, ih]

/-- The number of rounds that a depth stands for. -/
def roundsOf (depth : Int32) : Except Fault Nat :=
  if depth < 0 then .error (.invalidDepth depth) else .ok depth.toInt.toNat

/-- The start word after as many rounds as the depth says. -/
def expand (g : Grammar) (depth : Int32) : Run Word := do
  let count ← Run.lift (roundsOf depth)
  let word := g.rounds count g.start
  Run.report [.expanded depth g.start.length word.length]
  return word

end Grammar

end Fractal
