import Fractal.Expansion
import Fractal.Growth.Alphabet
import Fractal.Growth.Table

/-!
The length of an expansion, computed without expanding.

One round turns each symbol into a known number of each other symbol. The table of these numbers is
raised to the number of rounds by repeated squaring, so the work grows with the number of binary
digits of the depth.
-/

namespace Fractal

namespace Alphabet

/-- How often each symbol of the alphabet occurs in a word. -/
def tally (a : Alphabet) (word : Word) : Vector Count a.size :=
  word.foldl
    (fun counts symbol =>
      match a.slot? symbol with
      | some slot => counts.set slot (counts[slot] + 1)
      | none => counts)
    (Vector.replicate a.size 0)

/-- The count in the slot of a symbol. -/
def read (a : Alphabet) (counts : Vector Count a.size) (symbol : Char) : Count :=
  match a.slot? symbol with
  | some slot => counts[slot]
  | none => 0

/-- The sum of the counts of a word's symbols. -/
def total (a : Alphabet) (counts : Vector Count a.size) (word : Word) : Count :=
  word.foldl (fun sum symbol => sum + a.read counts symbol) 0

end Alphabet

/-- A computation of the lengths that single symbols grow to, part of the way through. -/
structure Projection (n : Nat) where
  /-- How many of each symbol one symbol becomes in the rounds that one pass stands for. -/
  growth : Table n
  /-- How long each symbol has become in the rounds done so far. -/
  lengths : Vector Count n
  /-- The rounds still to be done, counted in passes of the present size. -/
  remaining : Nat

namespace Projection

variable {n : Nat}

/-- One binary digit of the remaining rounds is used up, the lowest one. -/
def pass (p : Projection n) : Projection n where
  lengths := if p.remaining % 2 = 1 then p.growth.apply p.lengths else p.lengths
  remaining := p.remaining / 2
  -- After the last digit no larger growth is needed.
  growth := if p.remaining / 2 = 0 then p.growth else p.growth.product p.growth

/-- The lengths once no rounds remain. -/
def finish (p : Projection n) : Vector Count n :=
  if 0 < p.remaining then p.pass.finish else p.lengths
termination_by p.remaining
decreasing_by exact Nat.div_lt_self ‹_› (by decide)

end Projection

namespace Grammar

/-- How many of each symbol of an alphabet each of them becomes in one round. -/
def growth (g : Grammar) (a : Alphabet) : Table a.size :=
  Vector.ofFn fun slot => a.tally (g.replace a.symbols[slot])

/-- The computation for so many rounds, before its first pass. -/
def projection (g : Grammar) (a : Alphabet) (count : Nat) : Projection a.size where
  growth := g.growth a
  -- Before any round every symbol is one symbol long.
  lengths := Vector.replicate a.size 1
  remaining := count

/-- The number of symbols of an expansion, or the largest count if there are more. -/
def projectedLength (g : Grammar) (depth : Int32) : Except Fault Count := do
  let count ← roundsOf depth
  let a := g.alphabet
  return a.total (g.projection a count).finish g.start

/-- The expansion to a depth, unless it would have more symbols than the limit. -/
def expandBounded (g : Grammar) (depth : Int32) (limit : Count) : Run Word := do
  let projected ← Run.lift (g.projectedLength depth)
  if limit < projected then
    Run.report [.oversized depth projected limit]
    Run.fail (.tooLarge projected limit)
  else g.expand depth

end Grammar

end Fractal
