import Fractal.Growth.Alphabet
import Fractal.Proofs.Expansion

/-!
Slots of symbols, and words whose symbols all have one.

Main statements: halving the range finds exactly the slot of a symbol, and no round of a grammar
leads out of the grammar's alphabet.
-/

namespace Fractal

namespace Alphabet

/-- Slots of increasing symbols are ordered as their symbols are. -/
theorem getElem_lt_iff {symbols : Array Char} (increasing : symbols.toList.Pairwise (· < ·))
    (i j : Fin symbols.size) : symbols[i] < symbols[j] ↔ i < j := by
  have ordered : ∀ i j : Fin symbols.size, i < j → symbols[i] < symbols[j] := by
    intro i j before
    exact List.pairwise_iff_getElem.1 increasing i j i.isLt j.isLt before
  -- The converse follows, because a slot that is not before another one is it or after it.
  constructor
  · intro below
    rcases lt_trichotomy i j with before | same | after
    · exact before
    · rw [same] at below
      exact absurd below (lt_irrefl _)
    · exact absurd (below.trans (ordered j i after)) (lt_irrefl _)
  · exact ordered i j

/-- Two slots of one symbol are one slot. -/
theorem slot_unique {symbols : Array Char} (increasing : symbols.toList.Pairwise (· < ·))
    {i j : Fin symbols.size} (same : symbols[i] = symbols[j]) : i = j := by
  -- Different slots are ordered, and then their symbols differ as well.
  rcases lt_trichotomy i j with before | equal | after
  · exact absurd same ((getElem_lt_iff increasing i j).2 before).ne
  · exact equal
  · exact absurd same.symm ((getElem_lt_iff increasing j i).2 after).ne

/-- Halving a range of increasing symbols finds the slot of a symbol, if the range has one. -/
theorem seek_eq_some_iff {symbols : Array Char} (increasing : symbols.toList.Pairwise (· < ·))
    (symbol : Char) (low high : Nat) (inside : high ≤ symbols.size) (slot : Fin symbols.size) :
    seek symbols symbol low high inside = some slot ↔
      low ≤ slot.val ∧ slot.val < high ∧ symbols[slot] = symbol := by
  -- The half that is given up has only symbols on the far side of the middle.
  fun_induction seek symbols symbol low high inside with
  | case1 low high inside nonempty middle bound below ih =>
    rw [ih]
    refine ⟨fun ⟨above, under, found⟩ => ⟨above, by omega, found⟩, fun ⟨above, under, found⟩ => ?_⟩
    -- A slot of the symbol is before the middle, whose symbol is larger.
    have before := (getElem_lt_iff increasing slot ⟨middle, bound⟩).1 (found ▸ below)
    exact ⟨above, before, found⟩
  | case2 low high inside nonempty middle bound notBelow beyond ih =>
    rw [ih]
    refine ⟨fun ⟨above, under, found⟩ => ⟨by omega, under, found⟩, fun ⟨above, under, found⟩ => ?_⟩
    -- It is after the middle, whose symbol is smaller.
    have after := (getElem_lt_iff increasing ⟨middle, bound⟩ slot).1 (found ▸ beyond)
    exact ⟨after, under, found⟩
  | case3 low high inside nonempty middle bound notBelow notBeyond =>
    have middleFound : symbols[middle] = symbol :=
      le_antisymm (not_lt.1 notBelow) (not_lt.1 notBeyond)
    rw [Option.some.injEq]
    -- The middle is the answer, and no other slot of the range has its symbol.
    constructor
    · intro same
      subst same
      exact ⟨by simp only [middle]; omega, by simp only [middle]; omega, middleFound⟩
    · intro ⟨_, _, found⟩
      exact slot_unique increasing (middleFound.trans found.symm)
  -- An empty range has no slot in it.
  | case4 low high inside empty =>
    constructor
    · intro impossible
      exact absurd impossible (by simp)
    · intro ⟨above, under, _⟩
      omega

/-- A slot is found for a symbol exactly when it is the slot of that symbol. -/
theorem slot?_eq_some_iff (a : Alphabet) (symbol : Char) (slot : Fin a.size) :
    a.slot? symbol = some slot ↔ a.symbols[slot] = symbol := by
  -- The whole range is searched, so being inside it is no condition.
  rw [slot?, seek_eq_some_iff a.increasing]
  exact ⟨fun ⟨_, _, found⟩ => found, fun found => ⟨Nat.zero_le _, slot.isLt, found⟩⟩

/-- Every symbol of a word is one of the alphabet. -/
def Covers (a : Alphabet) (word : Word) : Prop :=
  ∀ symbol ∈ word, symbol ∈ a.symbols.toList

/-- A symbol of the alphabet has a slot. -/
theorem exists_slot (a : Alphabet) {symbol : Char} (member : symbol ∈ a.symbols.toList) :
    ∃ slot, a.symbols[slot] = symbol ∧ a.slot? symbol = some slot := by
  -- The symbol stands somewhere, and the search finds it there.
  obtain ⟨place, inside, here⟩ := List.getElem_of_mem member
  exact ⟨⟨place, inside⟩, here, (a.slot?_eq_some_iff symbol ⟨place, inside⟩).2 here⟩

/-- The alphabet of a word has the symbols of the word and no others. -/
@[simp] theorem mem_ofWord (word : Word) (symbol : Char) :
    symbol ∈ (ofWord word).symbols.toList ↔ symbol ∈ word := by
  simp only [ofWord, mem_collapse, List.mem_mergeSort]

end Alphabet

namespace Grammar

/-- The alphabet of a grammar has exactly the symbols that occur in it. -/
@[simp] theorem mem_alphabet (g : Grammar) (symbol : Char) :
    symbol ∈ g.alphabet.symbols.toList ↔ symbol ∈ g.symbols :=
  Alphabet.mem_ofWord g.symbols symbol

/-- The start word consists of symbols of the alphabet. -/
theorem covers_start (g : Grammar) : g.alphabet.Covers g.start := by
  intro symbol member
  -- The symbols of the start word are collected first.
  rw [mem_alphabet, symbols]
  exact List.mem_append_left _ member

/-- A round leads from symbols of the alphabet to symbols of the alphabet. -/
theorem covers_rewrite (g : Grammar) (word : Word) (covered : g.alphabet.Covers word) :
    g.alphabet.Covers (g.rewrite word) := by
  intro symbol member
  -- Every symbol of the new word comes from some symbol of the old one.
  obtain ⟨parent, above, below⟩ := List.mem_flatMap.1 member
  rcases g.replace_cases parent with same | ⟨rule, declared, _, same⟩
  · rw [same, List.mem_singleton] at below
    exact below ▸ covered parent above
  -- What a rule writes stands in the rule itself.
  · rw [same] at below
    rw [mem_alphabet, symbols]
    exact List.mem_append_right _
      (List.mem_flatMap.2 ⟨rule, declared, List.mem_cons_of_mem _ below⟩)

/-- No number of rounds leads out of the alphabet. -/
theorem covers_rounds (g : Grammar) (n : Nat) {word : Word} (covered : g.alphabet.Covers word) :
    g.alphabet.Covers (g.rounds n word) :=
  rounds_invariant g.covers_rewrite n covered

end Grammar

end Fractal
