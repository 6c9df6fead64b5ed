import Fractal.Grammar.Basic
import Mathlib

/-!
What the checks of a grammar let through, and what its index leads to.

Main statements: the checks make a grammar of exactly those parts that are the parts of one, and its
index is the map from each symbol with a rule to the position of that rule.
-/

namespace Fractal

namespace Grammar

/-- A grammar is made of its own parts. -/
theorem ofRules_self (g : Grammar) : ofRules g.start g.rules g.angle = .ok g := by
  -- The checks ask for what a grammar carries, so that each of them passes.
  have unique : Rule.repeated? g.rules = none := (Rule.repeated?_eq_none_iff g.rules).2 g.distinct
  rw [ofRules, dif_neg g.start_ne_nil, dif_pos g.angle_positive]
  split
  · rename_i symbol repeats
    rw [unique] at repeats
    cases repeats
  · exact congrArg Except.ok (ext rfl rfl rfl)

/-- The checks make a grammar of some parts exactly when the parts are its own. -/
theorem ofRules_eq_ok_iff {start : Word} {rules : Array Rule} {angle : Float} {g : Grammar} :
    ofRules start rules angle = .ok g ↔ g.start = start ∧ g.rules = rules ∧ g.angle = angle := by
  constructor
  · intro made
    rw [ofRules] at made
    -- Only the last of the endings makes a grammar, and it takes the parts as they are.
    split at made
    · cases made
    split at made
    · split at made
      · cases made
      · cases made
        exact ⟨rfl, rfl, rfl⟩
    · cases made
  · rintro ⟨rfl, rfl, rfl⟩
    exact g.ofRules_self

/-- The checks let parts through exactly when they are in order, each and together. -/
theorem exists_ofRules_eq_ok_iff {start : Word} {rules : Array Rule} {angle : Float} :
    (∃ g, ofRules start rules angle = .ok g) ↔
      start ≠ [] ∧ PositiveFinite angle ∧ (rules.toList.map Rule.predecessor).Nodup := by
  constructor
  -- The parts of the grammar that was made are the ones that were given.
  · rintro ⟨g, made⟩
    obtain ⟨rfl, rfl, rfl⟩ := ofRules_eq_ok_iff.1 made
    exact ⟨g.start_ne_nil, g.angle_positive, g.distinct⟩
  -- With the three conditions the grammar can be written down.
  · rintro ⟨begins, turns, distinct⟩
    exact ⟨⟨start, rules, angle, _, begins, turns, distinct, rfl⟩,
      ofRules_eq_ok_iff.2 ⟨rfl, rfl, rfl⟩⟩

/-- The checks make a grammar of pairs exactly when its rules are those pairs. -/
theorem ofPairs_eq_ok_iff {start : Word} {pairs : List (Char × Word)} {angle : Float}
    {g : Grammar} :
    ofPairs start pairs angle = .ok g ↔
      g.start = start ∧ g.rules.toList = (pairs.map fun pair => ⟨pair.1, pair.2⟩) ∧
        g.angle = angle := by
  rw [ofPairs, ofRules_eq_ok_iff, ← Array.toList_inj]

/-- The index leads from a symbol to a position exactly when the rule there replaces the symbol. -/
theorem index_eq_some_iff (g : Grammar) (symbol : Char) (place : Nat) :
    g.index[symbol]? = some place ↔
      ∃ rule, g.rules[place]? = some rule ∧ rule.predecessor = symbol := by
  rw [g.index_eq, Rule.getElem?_index, List.findIdx?_eq_some_iff_getElem, ← Array.getElem?_toList]
  constructor
  -- The index gives a position of a rule for the symbol.
  · rintro ⟨inside, named, -⟩
    exact ⟨g.rules.toList[place], List.getElem?_eq_getElem inside, eq_of_beq named⟩
  · rintro ⟨rule, here, rfl⟩
    obtain ⟨inside, rfl⟩ := List.getElem?_eq_some_iff.1 here
    refine ⟨inside, beq_self_eq_true _, fun earlier before named => ?_⟩
    -- The first rule for a symbol is the only one, since the predecessors are distinct.
    have same : g.rules.toList[earlier] = g.rules.toList[place] :=
      List.inj_on_of_nodup_map g.distinct (List.getElem_mem _) (List.getElem_mem _)
        (eq_of_beq named)
    exact before.ne ((List.Nodup.of_map _ g.distinct).getElem_inj_iff.1 same)

/-- A position that the index leads to is one of a rule, and the lookup answers with that rule. -/
theorem successor?_of_index {g : Grammar} {symbol : Char} {place : Nat}
    (found : g.index[symbol]? = some place) :
    ∃ inside : place < g.rules.size, g.successor? symbol = some g.rules[place].successor := by
  -- An indexed place holds a rule, and the lookup goes to this place.
  obtain ⟨rule, here, -⟩ := (g.index_eq_some_iff symbol place).1 found
  obtain ⟨inside, rfl⟩ := Array.getElem?_eq_some_iff.1 here
  exact ⟨inside, by rw [successor?, found, Option.bind_some, here, Option.map_some]⟩

end Grammar

end Fractal
