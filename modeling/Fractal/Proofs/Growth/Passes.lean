import Fractal.Proofs.Grammar.Construction
import Fractal.Proofs.Growth.Projection

/-!
The passes of a projection, one binary digit of the depth after the other.

Main statement: after any number of passes the lengths are those of as many rounds as the digits
used so far spell, and the table is that of as many rounds as the next digit stands for, both cut
off once at the largest count.
-/

namespace Fractal

namespace Projection

variable {n : Nat}

/-- The computation after so many passes, or after its last one if it has fewer. -/
def passes (p : Projection n) : Nat → Projection n
  | 0 => p
  | j + 1 => if 0 < (p.passes j).remaining then (p.passes j).pass else p.passes j

/-- A further pass is made as long as rounds remain. -/
theorem passes_succ_of_pos {p : Projection n} {j : Nat} (rest : 0 < (p.passes j).remaining) :
    p.passes (j + 1) = (p.passes j).pass := by
  rw [passes, if_pos rest]

/-- No further pass is made once no rounds remain. -/
theorem passes_succ_of_eq_zero {p : Projection n} {j : Nat} (none : (p.passes j).remaining = 0) :
    p.passes (j + 1) = p.passes j := by
  rw [passes, if_neg (Nat.not_lt.2 (Nat.le_of_eq none))]

/-- Every pass uses up one binary digit of the remaining rounds. -/
theorem remaining_passes (p : Projection n) (j : Nat) :
    (p.passes j).remaining = p.remaining / 2 ^ j := by
  induction j with
  | zero => rw [passes, Nat.pow_zero, Nat.div_one]
  | succ j ih =>
    rw [Nat.pow_succ, ← Nat.div_div_eq_div_mul, ← ih]
    rcases Nat.eq_zero_or_pos (p.passes j).remaining with none | rest
    -- There is no digit left to use up, and half of nothing is nothing.
    · rw [passes_succ_of_eq_zero none, none]
    -- A pass takes one digit off.
    · rw [passes_succ_of_pos rest]
      rfl

/-- The computation goes on with a pass as long as rounds remain. -/
theorem finish_of_pos {p : Projection n} (rest : 0 < p.remaining) : p.finish = p.pass.finish := by
  rw [finish, if_pos rest]

/-- The computation ends with its lengths once no rounds remain. -/
theorem finish_of_eq_zero {p : Projection n} (none : p.remaining = 0) : p.finish = p.lengths := by
  rw [finish, if_neg (Nat.not_lt.2 (Nat.le_of_eq none))]

/-- Passes made ahead do not change what the computation ends with. -/
theorem finish_passes (p : Projection n) (j : Nat) : (p.passes j).finish = p.finish := by
  -- Doing a pass beforehand does not change what is computed in the end.
  induction j with
  | zero => rfl
  | succ j ih =>
    rw [← ih]
    rcases Nat.eq_zero_or_pos (p.passes j).remaining with none | rest
    -- Nothing remains, so that the next pass is none.
    · rw [passes_succ_of_eq_zero none]
    -- The next pass is the one that the computation would begin with.
    · rw [passes_succ_of_pos rest, ← finish_of_pos rest]

/-- Passes do the rounds of the lowest digits, and the next one stands for a power of two. -/
theorem Tracks.passes {g : Grammar} {p : Projection g.alphabet.size} {done size : Nat}
    (tracks : Tracks g p done size) (j : Nat) :
    Tracks g (p.passes j) (done + p.remaining % 2 ^ j * size) (2 ^ j * size) := by
  -- One more pass doubles the rounds it stands for, and may do some of them.
  induction j with
  | zero =>
    rw [Nat.pow_zero, Nat.mod_one, Nat.zero_mul, Nat.add_zero, Nat.one_mul]
    exact tracks
  | succ j ih =>
    -- The digit that the next pass uses stands in front of those used so far.
    have digits : p.remaining % 2 ^ (j + 1) =
        p.remaining % 2 ^ j + 2 ^ j * ((p.passes j).remaining % 2) := by
      rw [remaining_passes, Nat.mod_pow_succ]
    -- The table of a pass is needed only while there are digits.
    rcases Nat.eq_zero_or_pos (p.passes j).remaining with none | rest
    · -- All digits have been used, and no table is needed any more.
      rw [passes_succ_of_eq_zero none, digits, none, Nat.zero_mod, Nat.mul_zero, Nat.add_zero]
      exact ⟨ih.lengths_eq, fun more => absurd none (Nat.ne_of_gt more)⟩
    · have next := ih.pass rest
      rw [← passes_succ_of_pos rest] at next
      have rounds : done + p.remaining % 2 ^ (j + 1) * size =
          done + p.remaining % 2 ^ j * size + (p.passes j).remaining % 2 * (2 ^ j * size) := by
        rw [digits]
        ring
      have wider : 2 ^ (j + 1) * size = 2 ^ j * size + 2 ^ j * size := by ring
      rw [rounds, wider]
      exact next

end Projection

namespace Grammar

/--
What the counts of a projection are between two of its passes.

The lengths count the rounds that the binary digits used so far spell. While digits remain, the
table counts the rounds that the next one stands for. Every number is cut off at the largest count
of 64 bits, and the passes still to come make the projected length from it.
-/
theorem passes_exact (g : Grammar) (depth : Int32) (nonneg : 0 ≤ depth) (j : Nat) :
    let count := depth.toInt.toNat
    let p := (g.projection g.alphabet count).passes j
    g.projectedLength depth = .ok (g.alphabet.total p.finish g.start) ∧
      p.remaining = count / 2 ^ j ∧
      (p.remaining = 0 → p.finish = p.lengths) ∧
      (∀ i : Fin g.alphabet.size, p.lengths[i].toNat =
        min (g.rounds (count % 2 ^ j) [g.alphabet.symbols[i]]).length (2 ^ 64 - 1)) ∧
      (0 < p.remaining → ∀ i k : Fin g.alphabet.size, p.growth[i][k].toNat =
        min ((g.rounds (2 ^ j) [g.alphabet.symbols[i]]).count g.alphabet.symbols[k])
          (2 ^ 64 - 1)) := by
  intro count p
  -- Before the first pass nothing is done, and a pass stands for one round.
  have tracks := (Projection.Tracks.start g count).passes j
  rw [Nat.zero_add, Nat.mul_one, Nat.mul_one] at tracks
  refine ⟨?_, Projection.remaining_passes _ j, Projection.finish_of_eq_zero, fun i => ?_,
    fun rest i k => ?_⟩
  -- The length is read off when all passes are done, wherever one looks in between.
  · rw [projectedLength, roundsOf_of_nonneg (Int32.not_lt.2 nonneg), Projection.finish_passes]
    rfl
  -- The lengths are those after the rounds that the used digits stand for.
  · rw [tracks.lengths_eq, Fin.getElem_fin, Table.getElem_clampRow, Count.toNat_clamp]
    rfl
  -- The table counts what one step of the next digit would grow.
  · rw [tracks.growth_eq rest, Fin.getElem_fin, Fin.getElem_fin, Table.getElem_clamp,
      Table.getElem_clampRow, Count.toNat_clamp]
    rfl

/-- After the digits of two, a symbol that grows, one that is erased, and one never reached. -/
theorem passes_exact_two :
    ∃ g, ofPairs "FA".toList [('F', "FF+".toList), ('A', []), ('Z', "ZF".toList)] 90 = .ok g ∧
      (0 : Int32) ≤ 6 ∧
      let p := (g.projection g.alphabet (6 : Int32).toInt.toNat).passes 2
      0 < p.remaining ∧
        ∃ f a z : Fin g.alphabet.size, g.alphabet.symbols[f] = 'F' ∧
          g.alphabet.symbols[a] = 'A' ∧ g.alphabet.symbols[z] = 'Z' ∧
          p.lengths[f].toNat = 7 ∧ p.lengths[a].toNat = 0 ∧ p.growth[z][f].toNat = 15 := by
  obtain ⟨g, made⟩ : ∃ g, ofPairs "FA".toList
      [('F', "FF+".toList), ('A', []), ('Z', "ZF".toList)] 90 = .ok g :=
    exists_ofRules_eq_ok_iff.2 (by decide)
  obtain ⟨start, rules, -⟩ := ofPairs_eq_ok_iff.1 made
  have symbols : g.symbols = "FA".toList ++ "FFF+AZZF".toList := by
    rw [Grammar.symbols, start, rules]
    rfl
  -- Each of the three letters occurs in the grammar and has a slot.
  have slot (symbol : Char) (member : symbol ∈ g.symbols) :
      ∃ slot : Fin g.alphabet.size, g.alphabet.symbols[slot] = symbol := by
    obtain ⟨slot, here, -⟩ := g.alphabet.exists_slot ((g.mem_alphabet symbol).2 member)
    exact ⟨slot, here⟩
  obtain ⟨f, onF⟩ := slot 'F' (by rw [symbols]; decide)
  obtain ⟨a, onA⟩ := slot 'A' (by rw [symbols]; decide)
  obtain ⟨z, onZ⟩ := slot 'Z' (by rw [symbols]; decide)
  have nonneg : (0 : Int32) ≤ 6 := by decide
  obtain ⟨-, remaining, -, lengths, growth⟩ := g.passes_exact 6 nonneg 2
  -- Six halved twice is one.
  have rest : 0 < ((g.projection g.alphabet (6 : Int32).toInt.toNat).passes 2).remaining := by
    rw [remaining]
    decide
  -- Of the six rounds two are done, and the last digit stands for the other four.
  have used : (6 : Int32).toInt.toNat % 2 ^ 2 = 2 := by decide
  have next : 2 ^ 2 = 4 := rfl
  have grown : (g.rounds 2 ['F']).length = 7 ∧ (g.rounds 2 ['A']).length = 0 ∧
      (g.rounds 4 ['Z']).count 'F' = 15 := by
    simp only [rounds_succ, rounds_zero, rewrite, funext (replace_eq_find? _), rules]
    decide
  refine ⟨g, made, nonneg, rest, f, a, z, onF, onA, onZ, ?_, ?_, ?_⟩
  · rw [lengths f, onF, used, grown.1]
    rfl
  · rw [lengths a, onA, used, grown.2.1]
    rfl
  · rw [growth rest z f, onZ, onF, next, grown.2.2]
    rfl

end Grammar

end Fractal
