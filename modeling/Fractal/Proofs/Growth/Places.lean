import Fractal.Figure
import Fractal.Proofs.Growth.Projection

/-!
Tallies and sums by the place of a symbol, with a place to fall back on for a missing one.

Looking symbols up by number can go wrong in two ways: a symbol without a place is counted at that
of another one, and a place may lie outside of a row. Main statement: neither happens to a grammar,
because its alphabet has every symbol that is ever looked up, each at a place of its own.
-/

namespace Fractal

namespace Alphabet

/-- The place of a symbol in the order, or a place given for symbols that are missing. -/
def place (a : Alphabet) (missing : Nat) (symbol : Char) : Nat :=
  ((a.slot? symbol).map Fin.val).getD missing

/-- How often each symbol occurs in a word, unless one of them has a place outside of the row. -/
def tally? (a : Alphabet) (missing : Nat) (word : Word) : Option (Array Count) :=
  word.foldlM
    (fun counts symbol =>
      let place := a.place missing symbol
      counts[place]?.map fun count => counts.setIfInBounds place (count + 1))
    (Array.replicate a.size 0)

/-- The sum of the counts of a word's symbols, unless one has a place outside of the row. -/
def total? (a : Alphabet) (missing : Nat) (counts : Array Count) (word : Word) : Option Count :=
  word.foldlM (fun sum symbol => counts[a.place missing symbol]?.map fun count => sum + count) 0

variable {a : Alphabet} {symbol : Char} {word : Word}

/-- The place of a symbol is its slot, if it has one. -/
theorem place_of_slot? {slot : Fin a.size} (located : a.slot? symbol = some slot) (missing : Nat) :
    a.place missing symbol = slot := by
  rw [place, located, Option.map_some, Option.getD_some]

/-- The place of a symbol of the alphabet is the only one where the symbol stands. -/
theorem getElem?_eq_some_iff_place (member : symbol ∈ a.symbols.toList) (missing i : Nat) :
    a.symbols[i]? = some symbol ↔ i = a.place missing symbol := by
  -- A symbol of the alphabet has a slot, which is its place whatever is missing.
  obtain ⟨home, here, located⟩ := a.exists_slot member
  rw [place_of_slot? located, Array.getElem?_eq_some_iff]
  constructor
  -- The list increases, so that no symbol has a second place.
  · rintro ⟨inside, there⟩
    have same : (⟨i, inside⟩ : Fin a.size) = home :=
      slot_unique a.increasing (there.trans here.symm)
    exact congrArg Fin.val same
  · rintro rfl
    exact ⟨home.isLt, here⟩

/-- Different symbols of the alphabet have different places. -/
theorem place_injOn (a : Alphabet) (missing : Nat) :
    Set.InjOn (a.place missing) {symbol | symbol ∈ a.symbols.toList} := by
  intro first member second member' same
  -- Both stand at the place that they share.
  have stands := (getElem?_eq_some_iff_place member missing _).2 rfl
  have stands' := (getElem?_eq_some_iff_place member' missing _).2 rfl
  rw [same, stands'] at stands
  exact (Option.some.inj stands).symm

/-- A fold of checked steps ends as the plain one does, if every step passes its check. -/
private theorem foldlM_eq_some {α β γ : Type} {items : List α} {step : β → α → β}
    {checked : γ → α → Option γ} (plain : β → γ)
    (passes : ∀ item ∈ items, ∀ sofar, checked (plain sofar) item = some (plain (step sofar item)))
    (start : β) :
    items.foldlM checked (plain start) = some (plain (items.foldl step start)) := by
  -- The first step passes its check, and the others start from what it leaves.
  induction items generalizing start with
  | nil => rfl
  | cons item rest ih =>
    rw [List.foldlM_cons, passes item List.mem_cons_self, Option.bind_eq_bind, Option.bind_some,
      List.foldl_cons]
    exact ih (fun other member => passes other (List.mem_cons_of_mem _ member)) _

/-- Tallying a covered word by places stays inside of the row, and is tallying it by slots. -/
theorem tally?_of_covers (covered : a.Covers word) (missing : Nat) :
    a.tally? missing word = some (a.tally word).toArray := by
  -- One step of the checked loop finds the slot of its symbol and counts it there.
  have passes : ∀ symbol ∈ word, ∀ counts : Vector Count a.size,
      (counts.toArray[a.place missing symbol]?.map fun count =>
        counts.toArray.setIfInBounds (a.place missing symbol) (count + 1)) =
      some (Table.enter counts (a.slot? symbol)).toArray := by
    intro symbol member counts
    obtain ⟨home, -, located⟩ := a.exists_slot (covered symbol member)
    have inside : home.val < counts.toArray.size := by simp
    rw [place_of_slot? located, located, Table.enter, Option.elim_some, Vector.toArray_set,
      Array.getElem?_eq_getElem inside, Option.map_some, Array.setIfInBounds, dif_pos inside]
    rfl
  rw [tally?, tally_eq_foldl, ← Vector.toArray_replicate]
  exact foldlM_eq_some Vector.toArray passes _

/-- Adding up the counts of a covered word by places is adding them up by slots. -/
theorem total?_of_covers (covered : a.Covers word) (missing : Nat) (counts : Vector Count a.size) :
    a.total? missing counts.toArray word = some (a.total counts word) := by
  -- The place of each symbol lies within the counts, so reading it does not fail.
  have passes : ∀ symbol ∈ word, ∀ sum : Count,
      (counts.toArray[a.place missing symbol]?.map fun count => sum + count) =
        some (sum + a.read counts symbol) := by
    intro symbol member sum
    obtain ⟨home, -, located⟩ := a.exists_slot (covered symbol member)
    have inside : home.val < counts.toArray.size := by simp
    rw [place_of_slot? located, read, located, Array.getElem?_eq_getElem inside, Option.map_some]
    rfl
  exact foldlM_eq_some id passes 0

end Alphabet

namespace Grammar

/-- The row of a symbol at a place: a tally of its successor, or one of itself if it has none. -/
def row? (g : Grammar) (missing place : Nat) (symbol : Char) : Option (Array Count) :=
  let counts := Array.replicate g.alphabet.size (0 : Count)
  (g.successor? symbol).elim (counts[place]?.map fun _ => counts.setIfInBounds place 1)
    (g.alphabet.tally? missing)

/-- A symbol occurs in a grammar in its start word, or on one of the two sides of a rule. -/
theorem mem_symbols_iff (g : Grammar) (symbol : Char) :
    symbol ∈ g.symbols ↔ symbol ∈ g.start ∨
      ∃ rule ∈ g.rules.toList, symbol = rule.predecessor ∨ symbol ∈ rule.successor := by
  simp only [symbols, List.mem_append, List.mem_flatMap, List.mem_cons]

/-- What replaces a symbol of the alphabet consists of symbols of the alphabet. -/
theorem covers_replace (g : Grammar) (slot : Fin g.alphabet.size) :
    g.alphabet.Covers (g.replace g.alphabet.symbols[slot]) := by
  rw [← rounds_one_singleton]
  exact g.covers_offspring 1 slot

/-- The rows made by places are those of the table, whatever place a missing symbol would have. -/
theorem row?_eq (g : Grammar) (missing : Nat) (slot : Fin g.alphabet.size) :
    g.row? missing slot g.alphabet.symbols[slot] =
      some ((g.growth g.alphabet).get slot).toArray := by
  have covered := g.covers_replace slot
  -- The row is the tally of what the symbol becomes in one round.
  have row : (g.growth g.alphabet).get slot =
      g.alphabet.tally (g.replace g.alphabet.symbols[slot]) := Vector.getElem_ofFn _
  rw [row, row?]
  cases found : g.successor? g.alphabet.symbols[slot] with
  -- A rewritten symbol has the tally of its successor, all of it in the alphabet.
  | some successor =>
    rw [replace, found, Option.getD_some] at covered ⊢
    exact Alphabet.tally?_of_covers covered missing
  | none =>
    -- A symbol that stays is tallied alone, in its own slot.
    have located := (g.alphabet.slot?_eq_some_iff _ slot).2 rfl
    have inside : slot.val < (Array.replicate g.alphabet.size (0 : Count)).size := by simp
    have one : (Vector.replicate g.alphabet.size (0 : Count))[slot] + 1 = 1 := by
      rw [Fin.getElem_fin, Vector.getElem_replicate]
      rfl
    rw [replace, found, Option.getD_none, Alphabet.tally_eq_foldl, List.foldl_cons, List.foldl_nil,
      located, Table.enter, Option.elim_some, one, Option.elim_none,
      Array.getElem?_eq_getElem inside, Option.map_some, Array.setIfInBounds, dif_pos inside,
      Vector.toArray_set]
    simp only [Vector.toArray_replicate]

/--
No symbol that a projection looks up is missing, and no place that it finds lies outside of a row.

The alphabet lists the symbols of the grammar in increasing order, and no expansion has others. Each
of them stands at one place, which it shares with no other symbol. Rows and sums that are made by
place are therefore complete, and the same for every place that a missing symbol might be given.
-/
theorem places_exact (g : Grammar) :
    g.alphabet.symbols.toList.Pairwise (· < ·) ∧
    (∀ symbol, symbol ∈ g.alphabet.symbols.toList ↔ symbol ∈ g.start ∨
      ∃ rule ∈ g.rules.toList, symbol = rule.predecessor ∨ symbol ∈ rule.successor) ∧
    (∀ depth word, (g.expand depth).outcome = .ok word →
      ∀ symbol ∈ word, symbol ∈ g.alphabet.symbols.toList) ∧
    ∀ missing : Nat,
      (∀ symbol ∈ g.alphabet.symbols.toList, ∀ i : Nat,
        g.alphabet.symbols[i]? = some symbol ↔ i = g.alphabet.place missing symbol) ∧
      Set.InjOn (g.alphabet.place missing) {symbol | symbol ∈ g.alphabet.symbols.toList} ∧
      (∀ slot : Fin g.alphabet.size,
        g.row? missing slot g.alphabet.symbols[slot] =
          some ((g.growth g.alphabet).get slot).toArray) ∧
      ∀ counts : Vector Count g.alphabet.size,
        g.alphabet.total? missing counts.toArray g.start =
          some (g.alphabet.total counts g.start) := by
  refine ⟨g.alphabet.increasing, fun symbol => ?_, fun depth word expanded => ?_, fun missing =>
    ⟨fun symbol member => Alphabet.getElem?_eq_some_iff_place member missing,
      g.alphabet.place_injOn missing, g.row?_eq missing,
      Alphabet.total?_of_covers g.covers_start missing⟩⟩
  -- The alphabet is collected from the start word and from both sides of the rules.
  · rw [mem_alphabet, mem_symbols_iff]
  -- Rewriting puts in nothing but symbols of the rules.
  · obtain ⟨-, rfl⟩ := expand_eq_ok_iff.1 expanded
    exact g.covers_rounds _ g.covers_start

/-- The five symbols of dragon curves, in order, with the place of the fourth. -/
theorem places_exact_dragonCurve :
    let g := Figure.dragonCurve.grammar
    g.alphabet.symbols.toList = "+-FXY".toList ∧ g.alphabet.place 0 'X' = 3 ∧
      ∃ word, (g.expand 5).outcome = .ok word ∧ ∀ symbol ∈ word, symbol ∈ "+-FXY".toList := by
  intro g
  obtain ⟨increasing, occurs, closed, lookups⟩ := g.places_exact
  have symbols : g.alphabet.symbols.toList = "+-FXY".toList := by
    -- Both lists are increasing, so having the same symbols makes them the same.
    refine increasing.eq_of_mem_iff (by decide) fun symbol => ?_
    rw [occurs, ← mem_symbols_iff]
    have fewer : g.symbols ⊆ "+-FXY".toList := by decide
    have more : "+-FXY".toList ⊆ g.symbols := by decide
    exact ⟨fun member => fewer member, fun member => more member⟩
  -- The letter stands at index three of the sorted alphabet.
  have fourth : g.alphabet.symbols[3]? = some 'X' := by
    rw [← Array.getElem?_toList, symbols]
    rfl
  have expanded := expand_eq_ok_iff.2 ⟨(by decide : (0 : Int32) ≤ 5), Eq.refl (g.rounds 5 g.start)⟩
  refine ⟨symbols, ?_, _, expanded, ?_⟩
  · exact (((lookups 0).1 'X' (by rw [symbols]; decide) 3).1 fourth).symm
  · rw [← symbols]
    exact closed 5 _ expanded

end Grammar

end Fractal
