import Fractal.Expansion.DepthFirst
import Fractal.Proofs.Names

/-!
What a round replaces, what every round keeps, and how an expansion ends.

A word grows as its symbols do, each one alone, so lengths and numbers of occurrences add up over
its symbols.
-/

namespace Fractal

namespace Grammar

/-- A symbol has a successor exactly when some rule replaces it by that word. -/
theorem successor?_eq_some_iff (g : Grammar) (symbol : Char) (word : Word) :
    g.successor? symbol = some word ↔
      ∃ rule ∈ g.rules.toList, rule.predecessor = symbol ∧ rule.successor = word := by
  -- A rule is looked up by its predecessor, which no other rule has.
  rw [successor?_eq_find?, Option.map_eq_some_iff]
  simp only [find?_name_eq_some_iff g.distinct, and_assoc]

/-- A symbol stays as it is, or gives way to the successor of a rule that replaces it. -/
theorem replace_cases (g : Grammar) (symbol : Char) :
    g.replace symbol = [symbol] ∨
      ∃ rule ∈ g.rules.toList, rule.predecessor = symbol ∧ g.replace symbol = rule.successor := by
  -- The lookup decides, and a word that it finds belongs to a declared rule.
  cases found : g.successor? symbol with
  | none => exact .inl (by rw [replace, found, Option.getD_none])
  | some word =>
    obtain ⟨rule, member, named, same⟩ := (g.successor?_eq_some_iff symbol word).1 found
    exact .inr ⟨rule, member, named, by rw [replace, found, Option.getD_some, same]⟩

/-- A symbol with a rule gives way to the successor of that rule. -/
theorem replace_of_mem {g : Grammar} {rule : Rule} (declared : rule ∈ g.rules.toList) :
    g.replace rule.predecessor = rule.successor := by
  -- The rule is the one that the lookup finds, since no other has its predecessor.
  have found := (g.successor?_eq_some_iff rule.predecessor rule.successor).2
    ⟨rule, declared, rfl, rfl⟩
  rw [replace, found, Option.getD_some]

/-- A symbol without a rule stays as it is. -/
theorem replace_of_terminal {g : Grammar} {symbol : Char}
    (terminal : ∀ rule ∈ g.rules.toList, rule.predecessor ≠ symbol) :
    g.replace symbol = [symbol] := by
  rcases g.replace_cases symbol with same | ⟨rule, declared, named, _⟩
  · exact same
  -- A rule for the symbol is excluded.
  · exact absurd named (terminal rule declared)

/-- What one round keeps is kept by any number of rounds. -/
theorem rounds_invariant {g : Grammar} {Kept : Word → Prop}
    (round : ∀ word, Kept word → Kept (g.rewrite word)) (n : Nat) {word : Word}
    (start : Kept word) : Kept (g.rounds n word) := by
  -- The first round gives the word that all others start from, so the word is generalized.
  induction n generalizing word with
  | zero => exact start
  | succ n ih =>
    rw [rounds_succ]
    exact ih (round word start)

/-- A symbol alone becomes its replacement in one round. -/
theorem rounds_one_singleton (g : Grammar) (symbol : Char) :
    g.rounds 1 [symbol] = g.replace symbol := by
  rw [rounds_succ, rounds_zero, rewrite, List.flatMap_singleton]

/-- What a symbol becomes in a round is found by a scan of the rules. -/
theorem replace_eq_find? (g : Grammar) (symbol : Char) :
    g.replace symbol =
      ((g.rules.toList.find? fun rule => rule.predecessor == symbol).map Rule.successor).getD
        [symbol] := by
  rw [replace, successor?_eq_find?]

/-- A symbol that a round leaves as it is stays so in any number of rounds. -/
theorem rounds_of_replace_self {g : Grammar} {symbol : Char} (same : g.replace symbol = [symbol])
    (n : Nat) : g.rounds n [symbol] = [symbol] := by
  -- The word stays what it is in every round.
  have round : ∀ word, word = [symbol] → g.rewrite word = [symbol] := by
    rintro word rfl
    rw [rewrite, List.flatMap_singleton, same]
  exact rounds_invariant round n rfl

/-- Every symbol of a word grows as it would alone. -/
theorem rounds_eq_flatMap (g : Grammar) (n : Nat) (word : Word) :
    g.rounds n word = word.flatMap fun symbol => g.rounds n [symbol] := by
  -- Both sides grow symbol by symbol, the depth first, which a word of one symbol does not show.
  simp only [rounds_eq_flatMap_grow, List.flatMap_singleton]

/-- A symbol grows into what the symbols of its replacement grow into, in one round less. -/
theorem rounds_succ_singleton (g : Grammar) (n : Nat) (symbol : Char) :
    g.rounds (n + 1) [symbol] = (g.replace symbol).flatMap fun symbol => g.rounds n [symbol] := by
  rw [rounds_succ, rewrite, List.flatMap_singleton, rounds_eq_flatMap]

/-- The lengths that the symbols of a word grow to add up. -/
theorem length_rounds (g : Grammar) (n : Nat) (word : Word) :
    (g.rounds n word).length = (word.map fun symbol => (g.rounds n [symbol]).length).sum := by
  rw [rounds_eq_flatMap, List.length_flatMap]

/-- The occurrences that grow from the symbols of a word add up. -/
theorem count_rounds (g : Grammar) (n : Nat) (word : Word) (wanted : Char) :
    (g.rounds n word).count wanted =
      (word.map fun symbol => (g.rounds n [symbol]).count wanted).sum := by
  rw [rounds_eq_flatMap, List.count_flatMap]
  rfl

/-- A depth below zero stands for no number of rounds. -/
theorem roundsOf_of_neg {depth : Int32} (negative : depth < 0) :
    roundsOf depth = .error (.invalidDepth depth) := by
  rw [roundsOf, if_pos negative]

/-- A depth that is not negative stands for as many rounds. -/
theorem roundsOf_of_nonneg {depth : Int32} (natural : ¬depth < 0) :
    roundsOf depth = .ok depth.toInt.toNat := by
  rw [roundsOf, if_neg natural]

/-- No expansion goes to a depth below zero. -/
theorem expand_of_neg (g : Grammar) {depth : Int32} (negative : depth < 0) :
    g.expand depth = Run.fail (.invalidDepth depth) := by
  -- The depth is looked at first, and its fault leaves no report behind.
  rw [expand, roundsOf_of_neg negative, Run.lift_error, Run.fail_bind]

/-- An expansion to a depth that is not negative is reported and never fails. -/
theorem expand_of_nonneg (g : Grammar) {depth : Int32} (natural : ¬depth < 0) :
    g.expand depth =
      { events := [.expanded depth g.start.length (g.rounds depth.toInt.toNat g.start).length]
        outcome := .ok (g.rounds depth.toInt.toNat g.start) } := by
  rw [expand, roundsOf_of_nonneg natural, Run.lift_ok, Run.ok_bind]
  rfl

/-- An expansion ends in a word exactly when its depth is not negative and its rounds do. -/
theorem expand_eq_ok_iff {g : Grammar} {depth : Int32} {word : Word} :
    (g.expand depth).outcome = .ok word ↔
      0 ≤ depth ∧ g.rounds depth.toInt.toNat g.start = word := by
  by_cases negative : depth < 0
  -- A negative depth has no expansion.
  · rw [g.expand_of_neg negative]
    exact iff_of_false (by rintro ⟨⟩) fun both => Int32.not_lt.2 both.1 negative
  -- Any other has one, which is the word after as many rounds.
  · rw [g.expand_of_nonneg negative, Except.ok.injEq]
    exact (and_iff_right (Int32.not_lt.1 negative)).symm

end Grammar

end Fractal
