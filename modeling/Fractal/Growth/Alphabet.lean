import Fractal.Grammar.Basic

/-!
The symbols of a grammar in increasing order, each with a slot of its own.

A slot is found by halving the range that can still hold the symbol.
-/

namespace Fractal

/-- Different symbols in increasing order. -/
structure Alphabet where
  /-- The symbols; each one's position is its slot. -/
  symbols : Array Char
  /-- Every symbol is smaller than those that come after it. -/
  increasing : symbols.toList.Pairwise (· < ·)

namespace Alphabet

/-- The number of symbols. -/
abbrev size (a : Alphabet) : Nat := a.symbols.size

/-- Every run of one symbol shrinks to a single one. -/
def collapse : Word → Word
  | [] => []
  | [symbol] => [symbol]
  | symbol :: next :: rest =>
    if symbol = next then collapse (next :: rest) else symbol :: collapse (next :: rest)

/-- Shrinking the runs loses no symbol and adds none. -/
@[simp] theorem mem_collapse {symbol : Char} (word : Word) :
    symbol ∈ collapse word ↔ symbol ∈ word := by
  fun_induction collapse word with
  | case1 => rfl
  | case2 => rfl
  | case3 next rest ih => simp [ih]
  | case4 first next rest _ ih => simp [ih]

/-- A sorted word without runs is strictly increasing. -/
theorem pairwise_collapse (word : Word) (sorted : word.Pairwise (· ≤ ·)) :
    (collapse word).Pairwise (· < ·) := by
  fun_induction collapse word with
  | case1 => exact .nil
  | case2 => simp
  | case3 next rest ih => exact ih sorted.tail
  | case4 first next rest differ ih =>
    refine .cons (fun later member => ?_) (ih sorted.tail)
    -- The next symbol lies above the first, and all later ones lie at or above the next.
    have below : first ≤ next := List.rel_of_pairwise_cons sorted List.mem_cons_self
    have above : next ≤ later := by
      rcases List.mem_cons.1 ((mem_collapse _).1 member) with rfl | deep
      · exact Char.le_refl _
      · exact List.rel_of_pairwise_cons sorted.tail deep
    exact Char.not_le.1 fun back => differ (Char.le_antisymm below (Char.le_trans above back))

/-- The symbols of a word in increasing order, none twice. -/
def ofWord (word : Word) : Alphabet where
  symbols := (collapse (word.mergeSort fun a b => a ≤ b)).toArray
  increasing := by
    refine pairwise_collapse _ ?_
    -- The order of symbols is transitive and total, so sorting by it orders every pair.
    have sorted := @List.pairwise_mergeSort _ (fun a b : Char => decide (a ≤ b))
      (fun a b c => by simpa using Char.le_trans) (fun a b => by simpa using Char.le_total a b) word
    simpa using sorted

/-- The slot of a symbol among those from `low` up to but without `high`. -/
def seek (symbols : Array Char) (symbol : Char) (low high : Nat) (inside : high ≤ symbols.size) :
    Option (Fin symbols.size) :=
  if nonempty : low < high then
    let middle := (low + high) / 2
    have bound : middle < symbols.size := by omega
    -- Only one half can still hold the symbol, unless the middle is the symbol.
    if symbol < symbols[middle] then seek symbols symbol low middle (by omega)
    else if symbols[middle] < symbol then seek symbols symbol (middle + 1) high inside
    else some ⟨middle, bound⟩
  else none
termination_by high - low

/-- The slot of a symbol, if the alphabet has the symbol. -/
def slot? (a : Alphabet) (symbol : Char) : Option (Fin a.size) :=
  seek a.symbols symbol 0 a.symbols.size (Nat.le_refl _)

end Alphabet

/-- The symbols that occur anywhere in a grammar. -/
def Grammar.symbols (g : Grammar) : Word :=
  g.start ++ g.rules.toList.flatMap fun rule => rule.predecessor :: rule.successor

/-- The alphabet of all symbols that occur in a grammar. -/
def Grammar.alphabet (g : Grammar) : Alphabet :=
  Alphabet.ofWord g.symbols

end Fractal
