import Fractal.Figure
import Fractal.Proofs.Grammar.Construction
import Fractal.Proofs.Growth.Projection

/-!
What an expansion depends on: the start word, and what becomes of the symbols that are met.

Rules for other symbols make the alphabet larger and its table of growth another one, but neither
shows in any result. Main statement: grammars that replace all symbols on the way alike expand,
project and refuse alike, and rules that keep their symbol or are never used make no difference.
-/

namespace Fractal

namespace Grammar

variable {g h : Grammar} {depth : Int32} {symbol : Char}

/-- A round of two grammars is the same if they replace the symbols of the word alike. -/
theorem rewrite_congr {word : Word}
    (agree : ∀ symbol ∈ word, g.replace symbol = h.replace symbol) :
    g.rewrite word = h.rewrite word :=
  List.flatMap_congr agree

/-- Rounds of two grammars are the same if they replace alike what is met before the last. -/
theorem rounds_congr {n : Nat} {word : Word}
    (agree : ∀ k < n, ∀ symbol ∈ g.rounds k word, g.replace symbol = h.replace symbol) :
    g.rounds n word = h.rounds n word := by
  -- The symbols of the word itself are met first, and the others in the rounds after it.
  induction n generalizing word with
  | zero => rfl
  | succ n ih =>
    have first : g.rewrite word = h.rewrite word := rewrite_congr (agree 0 n.succ_pos)
    rw [rounds_succ, rounds_succ, ← first]
    exact ih fun k before => agree (k + 1) (Nat.succ_lt_succ before)

/-- A symbol that is met on the way to an expansion, before the last round. -/
def Meets (g : Grammar) (depth : Int32) (symbol : Char) : Prop :=
  ∃ k word, 0 ≤ k ∧ k < depth ∧ (g.expand k).outcome = .ok word ∧ symbol ∈ word

/-- What is met on the way stands in the word of some number of rounds. -/
theorem meets_iff : g.Meets depth symbol ↔
    ∃ k < depth.toInt.toNat, symbol ∈ g.rounds k g.start := by
  constructor
  -- A depth that is not negative is a number of rounds.
  · rintro ⟨k, word, nonneg, before, expanded, member⟩
    obtain ⟨-, rfl⟩ := expand_eq_ok_iff.1 expanded
    rw [Int32.le_iff_toInt_le, Int32.toInt_zero] at nonneg
    rw [Int32.lt_iff_toInt_lt] at before
    exact ⟨k.toInt.toNat, by omega, member⟩
  · rintro ⟨k, before, member⟩
    -- A number of rounds below a depth is a depth itself.
    have small := depth.toInt_lt
    have exact : (Int32.ofInt k).toInt = k := Int32.toInt_ofInt_of_le (by omega) (by omega)
    have nonneg : 0 ≤ Int32.ofInt k := by
      rw [Int32.le_iff_toInt_le, Int32.toInt_zero, exact]
      omega
    refine ⟨Int32.ofInt k, g.rounds k g.start, nonneg, ?_, expand_eq_ok_iff.2 ⟨nonneg, ?_⟩, member⟩
    · rw [Int32.lt_iff_toInt_lt, exact]
      omega
    · rw [exact, Int.toNat_natCast]

/-- A symbol that stands nowhere in a grammar is never met. -/
theorem not_meets_of_not_mem (absent : symbol ∉ g.symbols) : ¬g.Meets depth symbol := by
  rw [meets_iff]
  -- Every round stays within the symbols of the grammar.
  rintro ⟨k, -, member⟩
  exact absent ((g.mem_alphabet symbol).1 (g.covers_rounds k g.covers_start symbol member))

/-- A rule that makes no difference to an expansion, for it keeps its symbol or is never used. -/
def Idle (g : Grammar) (depth : Int32) (rule : Rule) : Prop :=
  rule.successor = [rule.predecessor] ∨ ¬g.Meets depth rule.predecessor

/-- Two grammars whose expansions to a depth report and end alike, however they are bounded. -/
structure ExpandsLike (g h : Grammar) (depth : Int32) : Prop where
  /-- The expansions are the same. -/
  expand_eq : g.expand depth = h.expand depth
  /-- The lengths of the expansions are projected alike. -/
  projectedLength_eq : g.projectedLength depth = h.projectedLength depth
  /-- The expansions under any limit are the same, or refused for the same reason. -/
  expandBounded_eq : ∀ limit, g.expandBounded depth limit = h.expandBounded depth limit

/-- Grammars with one start word and the same rounds on it expand alike. -/
theorem ExpandsLike.of_rounds (start : g.start = h.start)
    (same : g.rounds depth.toInt.toNat g.start = h.rounds depth.toInt.toNat h.start) :
    g.ExpandsLike h depth := by
  by_cases negative : depth < 0
  -- A negative depth is refused by both, for itself.
  · refine ⟨?_, ?_, fun limit => ?_⟩
    · rw [g.expand_of_neg negative, h.expand_of_neg negative]
    · rw [g.projectedLength_of_neg negative, h.projectedLength_of_neg negative]
    · rw [g.expandBounded_of_neg negative, h.expandBounded_of_neg negative]
  · have expanded : g.expand depth = h.expand depth := by
      rw [g.expand_of_nonneg negative, h.expand_of_nonneg negative, same, start]
    -- The tables of the two may differ, but the lengths that they yield are those of one word.
    refine ⟨expanded, ?_, fun limit => ?_⟩
    · rw [g.projectedLength_of_nonneg negative, h.projectedLength_of_nonneg negative, same]
    · rw [g.expandBounded_of_nonneg negative, h.expandBounded_of_nonneg negative, same, expanded]

/-- A grammar keeps a symbol or shares its replacement, if it shares all rules that change it. -/
theorem replace_eq_self_or_eq (shared : ∀ rule ∈ g.rules.toList, rule.predecessor = symbol →
      rule.successor = [symbol] ∨ rule ∈ h.rules.toList) :
    g.replace symbol = [symbol] ∨ g.replace symbol = h.replace symbol := by
  rcases g.replace_cases symbol with kept | ⟨rule, declared, named, replaced⟩
  · exact .inl kept
  -- The rule rewrites the symbol to itself, or is a rule of the other grammar as well.
  · rcases shared rule declared named with kept | declared'
    · exact .inl (replaced.trans kept)
    · exact .inr (by rw [replaced, ← named, replace_of_mem declared'])

/-- Two grammars replace a symbol alike, if they share all rules that change it. -/
theorem replace_congr (shared : ∀ rule, rule.predecessor = symbol →
      rule.successor = [symbol] ∨ (rule ∈ g.rules.toList ↔ rule ∈ h.rules.toList)) :
    g.replace symbol = h.replace symbol := by
  have left : g.replace symbol = [symbol] ∨ g.replace symbol = h.replace symbol :=
    replace_eq_self_or_eq fun rule declared named =>
      (shared rule named).imp_right fun both => both.1 declared
  have right : h.replace symbol = [symbol] ∨ h.replace symbol = g.replace symbol :=
    replace_eq_self_or_eq fun rule declared named =>
      (shared rule named).imp_right fun both => both.2 declared
  -- Where one of them does not share its replacement with the other, both keep the symbol.
  rcases left with kept | same
  · rcases right with kept' | same
    · rw [kept, kept']
    · exact same.symm
  · exact same

/--
Only the start word and the replacements of the symbols that are met decide how a grammar expands.

In particular the order of the rules makes no difference, nor do rules that only one of the grammars
has, as long as they keep their symbol or replace one that is not met.
-/
theorem expandsLike_of_agree (start : g.start = h.start) (depth : Int32) :
    ((∀ symbol, g.Meets depth symbol → g.replace symbol = h.replace symbol) →
      g.ExpandsLike h depth) ∧
    (g.rules.toList.Perm h.rules.toList → g.ExpandsLike h depth) ∧
    ((∀ rule, g.Idle depth rule ∨ (rule ∈ g.rules.toList ↔ rule ∈ h.rules.toList)) →
      g.ExpandsLike h depth) := by
  have agreeing : (∀ symbol, g.Meets depth symbol → g.replace symbol = h.replace symbol) →
      g.ExpandsLike h depth := by
    intro agree
    refine .of_rounds start ?_
    rw [← start]
    exact rounds_congr fun k before symbol member =>
      agree symbol (meets_iff.2 ⟨k, before, member⟩)
  -- Both special cases are about rules, which tell how each symbol that is met is replaced.
  refine ⟨agreeing, fun perm => agreeing fun symbol _ => ?_, fun idle => agreeing ?_⟩
  -- A permutation keeps every rule.
  · exact replace_congr fun rule _ => .inr perm.mem_iff
  -- An idle rule is one that changes nothing or is about a symbol that is not met.
  · intro symbol met
    refine replace_congr fun rule named => ?_
    subst named
    rcases idle rule with (kept | unmet) | both
    · exact .inl kept
    · exact absurd met unmet
    · exact .inr both

/-- Dragon curves with just the rule of the first round, reversed rules, and a rule never used. -/
theorem expandsLike_dragonCurve :
    ∃ early reversed other,
      ofPairs "FX".toList [('X', "X+YF+".toList)] 90 = .ok early ∧
      ofPairs "FX".toList [('Y', "-FX-Y".toList), ('X', "X+YF+".toList), ('F', ['F'])] 90 =
        .ok reversed ∧
      ofPairs "FX".toList [('Z', "ZZ".toList), ('X', "X+YF+".toList), ('Y', "-FX-Y".toList)] 90 =
        .ok other ∧
      Figure.dragonCurve.grammar.ExpandsLike early 1 ∧
      Figure.dragonCurve.grammar.ExpandsLike reversed 12 ∧
      Figure.dragonCurve.grammar.ExpandsLike other 12 := by
  obtain ⟨early, made⟩ : ∃ g, ofPairs "FX".toList [('X', "X+YF+".toList)] 90 = .ok g :=
    exists_ofRules_eq_ok_iff.2 (by decide)
  obtain ⟨reversed, made'⟩ : ∃ g, ofPairs "FX".toList
      [('Y', "-FX-Y".toList), ('X', "X+YF+".toList), ('F', ['F'])] 90 = .ok g :=
    exists_ofRules_eq_ok_iff.2 (by decide)
  obtain ⟨other, made''⟩ : ∃ g, ofPairs "FX".toList
      [('Z', "ZZ".toList), ('X', "X+YF+".toList), ('Y', "-FX-Y".toList)] 90 = .ok g :=
    exists_ofRules_eq_ok_iff.2 (by decide)
  obtain ⟨start, rules, -⟩ := ofPairs_eq_ok_iff.1 made
  obtain ⟨start', rules', -⟩ := ofPairs_eq_ok_iff.1 made'
  obtain ⟨start'', rules'', -⟩ := ofPairs_eq_ok_iff.1 made''
  -- One grammar has a single rule, one has all in reverse, and one has another idle rule.
  refine ⟨early, reversed, other, made, made', made'',
    (expandsLike_of_agree start.symm 1).1 fun symbol met => ?_,
    (expandsLike_of_agree start'.symm 12).2.1 (by rw [rules']; decide),
    (expandsLike_of_agree start''.symm 12).2.2 fun rule => ?_⟩
  · -- Only the symbols of the start word are met before the first round.
    obtain ⟨k, before, member⟩ := meets_iff.1 met
    obtain rfl : k = 0 := Nat.lt_one_iff.1 before
    rw [replace_eq_find?, replace_eq_find?, rules]
    rcases List.mem_pair.1 member with rfl | rfl
    · rfl
    · rfl
  -- The rule of the stroke keeps it, and the new symbol is met nowhere.
  · by_cases keeps : rule = ⟨'F', "F".toList⟩
    · exact .inl (.inl (by rw [keeps]; rfl))
    by_cases unmet : rule = ⟨'Z', "ZZ".toList⟩
    · exact .inl (.inr (by rw [unmet]; exact not_meets_of_not_mem (by decide)))
    rw [rules'']
    change _ ∨ (rule ∈ [⟨'F', _⟩, ⟨'X', _⟩, ⟨'Y', _⟩] ↔ rule ∈ [⟨'Z', _⟩, ⟨'X', _⟩, ⟨'Y', _⟩])
    exact .inr (by simp only [List.mem_cons, keeps, unmet, false_or])

end Grammar

end Fractal
