import Fractal.Growth.Projection
import Fractal.Proofs.Growth.Alphabet
import Fractal.Proofs.Growth.Table

/-!
The computed length of an expansion is the length of the expansion.

The tables of a computation hold the true numbers of symbols, cut off once at the largest count.
Every pass keeps this, and so the final sum is the true length, cut off once.
-/

namespace Fractal

namespace Alphabet

/-- A sum over the symbols of a word is one over slots, each taken as often as its symbol occurs. -/
private theorem sum_eq_sum_slots (a : Alphabet) {word : Word} (covered : a.Covers word)
    (value : Char → Nat) :
    (word.map value).sum =
      ∑ slot : Fin a.size, word.count a.symbols[slot] * value a.symbols[slot] := by
  -- The values of a word's symbols are gathered by slots, each as often as its symbol occurs.
  induction word with
  | nil => simp
  | cons symbol rest ih =>
    have tail : a.Covers rest := fun other member => covered other (List.mem_cons_of_mem _ member)
    obtain ⟨home, here, _⟩ := a.exists_slot (covered symbol List.mem_cons_self)
    -- The first symbol counts in its own slot and in no other one.
    have first : ∑ slot : Fin a.size,
        (if symbol = a.symbols[slot] then 1 else 0) * value a.symbols[slot] = value symbol := by
      rw [Finset.sum_eq_single home]
      · rw [if_pos here.symm, here, Nat.one_mul]
      · intro slot _ other
        have differ : symbol ≠ a.symbols[slot] := fun same =>
          other (slot_unique a.increasing (same.symm.trans here.symm))
        rw [if_neg differ, Nat.zero_mul]
      · intro absent
        exact absurd (Finset.mem_univ home) absent
    rw [List.map_cons, List.sum_cons, ih tail, ← first, ← Finset.sum_add_distrib]
    refine Finset.sum_congr rfl fun slot _ => ?_
    simp only [List.count_cons, beq_iff_eq]
    rw [Nat.add_mul, Nat.add_comm]

/-- A tally enters the symbols of a word one after the other, each in its slot. -/
theorem tally_eq_foldl (a : Alphabet) (word : Word) :
    a.tally word = word.foldl (fun counts symbol => Table.enter counts (a.slot? symbol))
      (Vector.replicate a.size 0) := by
  rw [tally]
  congr 1
  funext counts symbol
  -- A symbol that has no slot is passed over, in both forms.
  cases a.slot? symbol <;> rfl

/-- Tallying counts every symbol of the alphabet, and passes over all others. -/
theorem tally_eq (a : Alphabet) (word : Word) :
    a.tally word = Table.clampRow fun slot => word.count a.symbols[slot] := by
  -- The counts so far are exact numbers, cut off, and the rest of the word adds to them.
  have onward : ∀ (rest : Word) (sofar : Fin a.size → Nat),
      rest.foldl (fun counts symbol => Table.enter counts (a.slot? symbol)) (Table.clampRow sofar) =
        Table.clampRow fun slot => sofar slot + rest.count a.symbols[slot] := by
    intro rest
    induction rest with
    | nil => intro sofar; simp
    | cons symbol rest ih =>
      intro sofar
      rw [List.foldl_cons, Table.enter_clampRow, ih]
      congr 1
      funext slot
      simp only [slot?_eq_some_iff, List.count_cons, beq_iff_eq, eq_comm (a := symbol)]
      omega
  -- At the start every number is zero, and zero is not changed by the cut.
  have fresh : Vector.replicate a.size (0 : Count) = Table.clampRow fun _ => 0 := by
    ext slot inside : 1
    rw [Vector.getElem_replicate, Table.clampRow, Vector.getElem_ofFn]
    rfl
  rw [tally_eq_foldl, fresh, onward]
  simp only [Nat.zero_add]

/-- What a row holds for a symbol is the number of that symbol, cut off as a count. -/
private theorem read_clampRow (a : Alphabet) (value : Char → Nat) {symbol : Char}
    (member : symbol ∈ a.symbols.toList) :
    a.read (Table.clampRow fun slot => value a.symbols[slot]) symbol =
      Count.clamp (value symbol) := by
  -- The slot that is found for the symbol is the one whose symbol it is.
  obtain ⟨home, here, located⟩ := a.exists_slot member
  rw [read, located, ← here]
  exact Table.getElem_clampRow _ home.val home.isLt

/-- The counts of a word's symbols add up to the exact sum, cut off once. -/
theorem total_clampRow (a : Alphabet) (value : Char → Nat) {word : Word}
    (covered : a.Covers word) :
    a.total (Table.clampRow fun slot => value a.symbols[slot]) word =
      Count.clamp (word.map value).sum := by
  have summed := Count.foldl_add_clamp word value 0
  rw [Nat.zero_add] at summed
  rw [total, ← summed]
  -- Every symbol of the word is covered, so each one is read as its own value.
  refine List.foldl_ext _ _ _ fun sum symbol member => ?_
  rw [a.read_clampRow value (covered symbol member)]

end Alphabet

namespace Grammar

/-- How often each symbol of the alphabet occurs in what each of them grows to. -/
def offspring (g : Grammar) (n : Nat) : Matrix (Fin g.alphabet.size) (Fin g.alphabet.size) Nat :=
  fun slot wanted => (g.rounds n [g.alphabet.symbols[slot]]).count g.alphabet.symbols[wanted]

/-- How long each symbol of the alphabet grows. -/
def spans (g : Grammar) (n : Nat) : Fin g.alphabet.size → Nat :=
  fun slot => (g.rounds n [g.alphabet.symbols[slot]]).length

/-- What a symbol of the alphabet grows to consists of symbols of the alphabet. -/
theorem covers_offspring (g : Grammar) (n : Nat) (slot : Fin g.alphabet.size) :
    g.alphabet.Covers (g.rounds n [g.alphabet.symbols[slot]]) := by
  refine g.covers_rounds n fun symbol member => ?_
  -- The rounds start from a single symbol of the alphabet.
  rw [List.mem_singleton] at member
  rw [member]
  exact List.getElem_mem slot.isLt

/-- The table of a sum of rounds is the product of the tables of its parts. -/
theorem offspring_add (g : Grammar) (m n : Nat) :
    g.offspring (m + n) = g.offspring m * g.offspring n := by
  -- The later rounds start from what the earlier ones grew, counted slot by slot.
  ext slot wanted
  rw [Matrix.mul_apply, offspring, rounds_add, count_rounds,
    g.alphabet.sum_eq_sum_slots (g.covers_offspring m slot)]
  rfl

/-- The lengths after a sum of rounds are those of its later part, counted by its earlier part. -/
theorem spans_add (g : Grammar) (m n : Nat) :
    g.spans (m + n) = (g.offspring m).mulVec (g.spans n) := by
  -- As above, with lengths of what the later rounds grow in the place of occurrences.
  ext slot
  rw [Matrix.mulVec, dotProduct, spans, rounds_add, length_rounds,
    g.alphabet.sum_eq_sum_slots (g.covers_offspring m slot)]
  rfl

/-- The table of one round holds the exact numbers, cut off. -/
theorem growth_eq (g : Grammar) : g.growth g.alphabet = Table.clamp (g.offspring 1) := by
  -- The row of a symbol tallies its replacement, which is what it grows to in one round.
  ext slot inside : 1
  rw [growth, Vector.getElem_ofFn, Table.getElem_clamp, Alphabet.tally_eq]
  unfold offspring
  rw [rounds_one_singleton]

end Grammar

namespace Projection

/-- The state of a computation that has done some rounds, with passes of some number of rounds. -/
structure Tracks (g : Grammar) (p : Projection g.alphabet.size) (done size : Nat) : Prop where
  /-- The lengths are those after the rounds done, cut off. -/
  lengths_eq : p.lengths = Table.clampRow (g.spans done)
  /-- While rounds remain, the table is that of the rounds of one pass, cut off. -/
  growth_eq : 0 < p.remaining → p.growth = Table.clamp (g.offspring size)

namespace Tracks

variable {g : Grammar} {p : Projection g.alphabet.size} {done size : Nat}

/-- Before the first pass no round is done, and a pass stands for one round. -/
theorem start (g : Grammar) (count : Nat) : Tracks g (g.projection g.alphabet count) 0 1 where
  lengths_eq := by
    ext slot inside : 1
    rw [Grammar.projection, Vector.getElem_replicate, Table.getElem_clampRow]
    rfl
  growth_eq _ := g.growth_eq

/-- A pass does the rounds of the lowest digit, and the next one stands for twice as many. -/
theorem pass (tracks : Tracks g p done size) (rest : 0 < p.remaining) :
    Tracks g p.pass (done + p.remaining % 2 * size) (size + size) where
  lengths_eq := by
    -- Of an odd number of passes one is done now, and the others are done in pairs.
    change (if p.remaining % 2 = 1 then p.growth.apply p.lengths else p.lengths) = _
    rcases Nat.mod_two_eq_zero_or_one p.remaining with even | odd
    · rw [if_neg (by omega), even, Nat.zero_mul, Nat.add_zero]
      exact tracks.lengths_eq
    · rw [if_pos odd, odd, Nat.one_mul, tracks.lengths_eq, tracks.growth_eq rest,
        Table.apply_clamp, ← Grammar.spans_add, Nat.add_comm]
  growth_eq more := by
    -- The table is only squared while another pass is to come, and only then it is read.
    have again : ¬p.remaining / 2 = 0 := Nat.ne_of_gt more
    rw [Projection.pass, if_neg again, tracks.growth_eq rest, Table.product_clamp,
      ← Grammar.offspring_add]

/-- Once no rounds remain, the lengths are those after all rounds, cut off. -/
theorem finish (tracks : Tracks g p done size) :
    p.finish = Table.clampRow (g.spans (done + p.remaining * size)) := by
  -- The induction is on the remaining digits; each pass moves its rounds to those done.
  fun_induction Projection.finish p generalizing done size with
  | case1 p rest ih =>
    -- An odd round done now and pairs of rounds later make up all that remain.
    have halves : done + p.remaining % 2 * size + p.remaining / 2 * (size + size) =
        done + p.remaining * size := by
      have digits := Nat.mod_add_div p.remaining 2
      calc done + p.remaining % 2 * size + p.remaining / 2 * (size + size)
          = done + (p.remaining % 2 + 2 * (p.remaining / 2)) * size := by ring
        _ = done + p.remaining * size := by rw [digits]
    rw [ih (tracks.pass rest), ← halves]
    rfl
  | case2 p none =>
    -- Nothing remains, and the lengths are those of the rounds done.
    have zero : p.remaining = 0 := by omega
    rw [tracks.lengths_eq, zero, Nat.zero_mul, Nat.add_zero]

end Tracks

end Projection

namespace Grammar

/-- The number of symbols that is projected for a depth is the true number, cut off once. -/
theorem projectedLength_of_nonneg (g : Grammar) {depth : Int32} (natural : ¬depth < 0) :
    g.projectedLength depth =
      .ok (Count.clamp (g.rounds depth.toInt.toNat g.start).length) := by
  -- With nothing done and passes of one round, the rounds that remain are the depth.
  have finished := (Projection.Tracks.start g depth.toInt.toNat).finish
  rw [Nat.zero_add, Nat.mul_one] at finished
  have lengths : (g.projection g.alphabet depth.toInt.toNat).finish =
      Table.clampRow (g.spans depth.toInt.toNat) := finished
  -- The start word is covered, so its lengths are all read from the slots they were kept in.
  have summed := g.alphabet.total_clampRow
    (fun symbol => (g.rounds depth.toInt.toNat [symbol]).length) g.covers_start
  rw [projectedLength, roundsOf_of_nonneg natural, length_rounds, ← summed]
  change Except.ok (g.alphabet.total _ g.start) = _
  rw [lengths]
  rfl

/-- Nothing is projected for a depth below zero. -/
theorem projectedLength_of_neg (g : Grammar) {depth : Int32} (negative : depth < 0) :
    g.projectedLength depth = .error (.invalidDepth depth) := by
  -- The depth is checked before any table is made.
  rw [projectedLength, roundsOf_of_neg negative]
  rfl

/-- A bounded expansion goes to no depth below zero. -/
theorem expandBounded_of_neg (g : Grammar) {depth : Int32} (negative : depth < 0)
    (limit : Count) : g.expandBounded depth limit = Run.fail (.invalidDepth depth) := by
  rw [expandBounded, projectedLength_of_neg g negative, Run.lift_error, Run.fail_bind]

/-- A bounded expansion is refused with a report when it is too long, and else not bounded. -/
theorem expandBounded_of_nonneg (g : Grammar) {depth : Int32} (natural : ¬depth < 0)
    (limit : Count) :
    g.expandBounded depth limit =
      if limit < Count.clamp (g.rounds depth.toInt.toNat g.start).length then
        { events := [.oversized depth
            (Count.clamp (g.rounds depth.toInt.toNat g.start).length) limit]
          outcome := .error (.tooLarge
            (Count.clamp (g.rounds depth.toInt.toNat g.start).length) limit) }
      else g.expand depth := by
  rw [expandBounded, projectedLength_of_nonneg g natural, Run.lift_ok, Run.ok_bind]
  -- The comparison decides, and then both sides are the same by definition.
  split
  · rfl
  · rfl

/--
The projection of a length is the length of the expansion, cut off once at the largest count.

A bounded expansion is therefore refused exactly when the projection exceeds the limit, and is the
unbounded expansion in every other case.
-/
theorem projectedLength_exact (g : Grammar) (depth : Int32) :
    (depth < 0 →
      g.projectedLength depth = .error (.invalidDepth depth) ∧
        (g.expand depth).outcome = .error (.invalidDepth depth) ∧
        ∀ limit, (g.expandBounded depth limit).outcome = .error (.invalidDepth depth)) ∧
    (0 ≤ depth → ∃ word projected,
      (g.expand depth).outcome = .ok word ∧
        g.projectedLength depth = .ok projected ∧
        projected.toNat = min word.length (2 ^ 64 - 1) ∧
        ∀ limit, (g.expandBounded depth limit).outcome =
          if limit < projected then .error (.tooLarge projected limit) else .ok word) := by
  constructor
  -- All three look at the depth first.
  · intro negative
    refine ⟨g.projectedLength_of_neg negative, ?_, fun limit => ?_⟩
    · rw [g.expand_of_neg negative]
      rfl
    · rw [g.expandBounded_of_neg negative]
      rfl
  -- The word of the expansion is the one whose length was projected.
  · intro nonneg
    have natural : ¬depth < 0 := Int32.not_lt.2 nonneg
    refine ⟨g.rounds depth.toInt.toNat g.start, _, ?_, g.projectedLength_of_nonneg natural,
      Count.toNat_clamp _, fun limit => ?_⟩
    · rw [g.expand_of_nonneg natural]
    -- The guard compares the projected length and no other number.
    · rw [g.expandBounded_of_nonneg natural]
      split
      · rfl
      · rw [g.expand_of_nonneg natural]

end Grammar

end Fractal
