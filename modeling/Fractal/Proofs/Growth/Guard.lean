import Fractal.Figure
import Fractal.Proofs.Grammar.Construction
import Fractal.Proofs.Growth.Projection

/-!
What a limit on the length of an expansion says about the rounds on the way.

Only the length of the last word is compared with the limit. Main statement: a word on the way is
within the limit exactly when the later rounds do not erase too much of it. Where rules erase
symbols, such a word may be longer than any limit.
-/

namespace Fractal

namespace Grammar

/-! ### The balance of a round -/

/-- How many symbols of a word the next round erases. -/
def erased (g : Grammar) (word : Word) : Nat :=
  word.countP fun symbol => (g.replace symbol).isEmpty

/-- How many symbols the next round adds to those that take the places of a word's symbols. -/
def added (g : Grammar) (word : Word) : Nat :=
  (word.map fun symbol => (g.replace symbol).length - 1).sum

/-- What is counted in a word before each of so many rounds, summed up. -/
def inRounds (g : Grammar) (counted : Word → Nat) : Nat → Word → Nat
  | 0, _ => 0
  | n + 1, word => counted word + g.inRounds counted n (g.rewrite word)

/-- A round changes the length of a word by what it adds and what it erases. -/
theorem length_add_added (g : Grammar) (word : Word) :
    word.length + g.added word = (g.rewrite word).length + g.erased word := by
  induction word with
  | nil => rfl
  | cons symbol rest ih =>
    -- A symbol is erased when nothing takes its place, and it is the first of what does otherwise.
    have single : 1 + ((g.replace symbol).length - 1) =
        (g.replace symbol).length + g.erased [symbol] := by
      cases replaced : g.replace symbol with
      | nil => simp [erased, replaced]
      | cons first others =>
        simp [erased, replaced]
        omega
    -- Both counts go symbol by symbol, as rewriting does.
    have counted : g.erased (symbol :: rest) = g.erased [symbol] + g.erased rest :=
      @List.countP_append _ _ [symbol] rest
    have summed : g.added (symbol :: rest) = ((g.replace symbol).length - 1) + g.added rest :=
      List.sum_cons
    have grown : (g.rewrite (symbol :: rest)).length =
        (g.replace symbol).length + (g.rewrite rest).length := List.length_append
    rw [List.length_cons, counted, summed, grown]
    omega

/-- Many rounds change the length of a word by all that they add and erase. -/
theorem length_add_addedIn (g : Grammar) (n : Nat) (word : Word) :
    word.length + g.inRounds g.added n word =
      (g.rounds n word).length + g.inRounds g.erased n word := by
  -- The balance of the first round is added to that of the others, which start from its result.
  induction n generalizing word with
  | zero => rfl
  | succ n ih =>
    have first := g.length_add_added word
    have later := ih (g.rewrite word)
    rw [rounds_succ, inRounds, inRounds]
    omega

/-- Rounds erase nothing if every successor has symbols. -/
theorem erasedIn_eq_zero {g : Grammar} (keeps : ∀ rule ∈ g.rules.toList, rule.successor ≠ [])
    (n : Nat) (word : Word) : g.inRounds g.erased n word = 0 := by
  -- What replaces a symbol is a successor or the symbol itself, and neither is empty.
  have none : ∀ word, g.erased word = 0 := by
    refine fun word => List.countP_eq_zero.2 fun symbol _ empty => ?_
    rw [List.isEmpty_iff] at empty
    rcases g.replace_cases symbol with kept | ⟨rule, member, -, replaced⟩
    · rw [kept] at empty
      cases empty
    · exact keeps rule member (replaced.symm.trans empty)
  -- Nothing is erased in any of the rounds.
  induction n generalizing word with
  | zero => rfl
  | succ n ih => rw [inRounds, none, ih]

/-! ### Accepted expansions -/

/-- An expansion is accepted exactly when its length, cut off as a count, is within the limit. -/
theorem expandBounded_eq_ok_iff {g : Grammar} {depth : Int32} {limit : Count} {word : Word} :
    (g.expandBounded depth limit).outcome = .ok word ↔
      (g.expand depth).outcome = .ok word ∧ Count.clamp word.length ≤ limit := by
  by_cases negative : depth < 0
  -- A negative depth is refused by the guard and by the expansion.
  · rw [g.expandBounded_of_neg negative, g.expand_of_neg negative]
    exact iff_of_false (by rintro ⟨⟩) (by rintro ⟨⟨⟩, _⟩)
  · rw [g.expandBounded_of_nonneg negative]
    split
    -- A projection above the limit is an error, and the word is too long.
    · rename_i long
      refine iff_of_false (by rintro ⟨⟩) ?_
      rintro ⟨expanded, short⟩
      obtain ⟨-, rfl⟩ := expand_eq_ok_iff.1 expanded
      exact Nat.not_le.2 long short
    -- Otherwise the guard hands over to the expansion.
    · rename_i short
      refine (and_iff_left_of_imp fun expanded => ?_).symm
      obtain ⟨-, rfl⟩ := expand_eq_ok_iff.1 expanded
      exact Nat.not_lt.1 short

/-- The word of an accepted expansion is that of its rounds, and not longer than the limit. -/
theorem eq_rounds_of_accepted {g : Grammar} {depth : Int32} {limit : Count} {word : Word}
    (accepted : (g.expandBounded depth limit).outcome = .ok word)
    (small : limit.toNat < Count.top) :
    word = g.rounds depth.toInt.toNat g.start ∧ word.length ≤ limit.toNat := by
  obtain ⟨expanded, short⟩ := expandBounded_eq_ok_iff.1 accepted
  obtain ⟨-, rfl⟩ := expand_eq_ok_iff.1 expanded
  -- Below the largest count, the number that was compared is the length itself.
  have compared : min (g.rounds depth.toInt.toNat g.start).length Count.top ≤ limit.toNat := by
    rw [← Count.toNat_clamp]
    exact short
  exact ⟨rfl, by omega⟩

/-- An expansion that is no longer than the limit is accepted. -/
theorem expandBounded_of_le {g : Grammar} {depth : Int32} (natural : ¬depth < 0) {limit : Count}
    (fits : (g.rounds depth.toInt.toNat g.start).length ≤ limit.toNat) :
    (g.expandBounded depth limit).outcome = .ok (g.rounds depth.toInt.toNat g.start) := by
  refine expandBounded_eq_ok_iff.2 ⟨expand_eq_ok_iff.2 ⟨Int32.not_lt.1 natural, rfl⟩, ?_⟩
  -- Cutting the length off can only make it smaller.
  change (Count.clamp _).toNat ≤ limit.toNat
  rw [Count.toNat_clamp]
  omega

/-! ### Bursts, which no limit bounds -/

/-- A grammar whose first round writes as many symbols as wanted, and whose second erases them. -/
def burst (width : Nat) : Grammar where
  start := ['A']
  rules := #[⟨'A', List.replicate width 'B'⟩, ⟨'B', []⟩]
  angle := 90
  index := Rule.index #[⟨'A', List.replicate width 'B'⟩, ⟨'B', []⟩]
  start_ne_nil := by decide
  angle_positive := by decide
  distinct := by simp
  index_eq := rfl

/-- The first round of a burst. -/
theorem rounds_one_burst (width : Nat) :
    (burst width).rounds 1 (burst width).start = List.replicate width 'B' := by
  refine (rounds_one_singleton _ 'A').trans ?_
  rw [replace_eq_find?]
  rfl

/-- The second round of a burst. -/
theorem rounds_two_burst (width : Nat) : (burst width).rounds 2 (burst width).start = [] := by
  have erases : (burst width).replace 'B' = [] := by
    rw [replace_eq_find?]
    rfl
  -- The second round starts from the copies, all of which it erases.
  rw [rounds_add _ 1 1, rounds_one_burst, rounds_succ, rounds_zero, rewrite,
    List.flatMap_eq_nil_iff]
  intro symbol member
  rw [List.eq_of_mem_replicate member, erases]

/-- Every limit accepts a burst of every width, since nothing of it is left in the end. -/
theorem expandBounded_burst (width : Nat) (limit : Count) :
    ((burst width).expandBounded 2 limit).outcome = .ok [] := by
  have last : (burst width).rounds (2 : Int32).toInt.toNat (burst width).start = [] :=
    rounds_two_burst width
  rw [expandBounded_of_le (by decide) (by rw [last]; exact Nat.zero_le _), last]

/-- The first round of a burst is as wide as wanted. -/
theorem expand_burst (width : Nat) :
    ((burst width).expand 1).outcome = .ok (List.replicate width 'B') := by
  have first : (burst width).rounds (1 : Int32).toInt.toNat (burst width).start =
      List.replicate width 'B' := rounds_one_burst width
  rw [expand_of_nonneg _ (by decide), first]

/-! ### The rounds on the way -/

/--
What an accepted expansion says about the words on the way to it.

Such a word is within the limit exactly when the later rounds do not erase more of it than they add
and the limit leaves. It is so if every successor has symbols, and is never longer than the limit by
more than is erased.
-/
theorem length_le_limit_iff (g : Grammar) (depth : Int32) (limit : Count) (word : Word)
    (accepted : (g.expandBounded depth limit).outcome = .ok word)
    (small : limit.toNat < 2 ^ 64 - 1) :
    ∀ k, 0 ≤ k → k ≤ depth → ∃ earlier, (g.expand k).outcome = .ok earlier ∧
      let later := depth.toInt.toNat - k.toInt.toNat
      let erased := g.inRounds g.erased later earlier
      let added := g.inRounds g.added later earlier
      (earlier.length ≤ limit.toNat ↔ word.length + erased ≤ limit.toNat + added) ∧
        earlier.length ≤ limit.toNat + erased ∧
        ((∀ rule ∈ g.rules.toList, rule.successor ≠ []) → earlier.length ≤ limit.toNat) := by
  intro k nonneg within
  obtain ⟨rfl, bounded⟩ := eq_rounds_of_accepted accepted small
  refine ⟨g.rounds k.toInt.toNat g.start, by rw [g.expand_of_nonneg (Int32.not_lt.2 nonneg)], ?_⟩
  intro later erased added
  -- The rounds to the full depth are those to the earlier word and the later ones.
  have split : k.toInt.toNat + later = depth.toInt.toNat := by
    rw [Int32.le_iff_toInt_le] at within
    omega
  have balance := g.length_add_addedIn later (g.rounds k.toInt.toNat g.start)
  rw [← rounds_add, split] at balance
  -- The balance turns a bound on the last word into one on the earlier word.
  refine ⟨by omega, by omega, fun keeps => ?_⟩
  have nothing : erased = 0 := erasedIn_eq_zero keeps _ _
  omega

/-- A burst past the limit by what is erased, and a snowflake that is as long as its limit. -/
theorem length_le_limit_iff_second :
    (((burst 3).expandBounded 2 0).outcome = .ok [] ∧ (0 : Count).toNat < 2 ^ 64 - 1 ∧
      ∃ earlier, ((burst 3).expand 1).outcome = .ok earlier ∧
        earlier.length ≤ (0 : Count).toNat + (burst 3).inRounds (burst 3).erased 1 earlier) ∧
    ∃ earlier, (Figure.kochSnowflake.grammar.expand 1).outcome = .ok earlier ∧
      earlier.length ≤ (112 : Count).toNat := by
  constructor
  -- The erasing grammar passes the guard, with more symbols in between than the limit.
  · have passes := expandBounded_burst 3 0
    have small : (0 : Count).toNat < 2 ^ 64 - 1 := by decide
    obtain ⟨earlier, expanded, -, bounded, -⟩ :=
      (burst 3).length_le_limit_iff 2 0 [] passes small 1 (by decide) (by decide)
    exact ⟨passes, small, earlier, expanded, bounded⟩
  -- The snowflake erases nothing, so each of its rounds is within the limit.
  · have size : (Figure.kochSnowflake.grammar.rounds (2 : Int32).toInt.toNat
        Figure.kochSnowflake.grammar.start).length ≤ (112 : Count).toNat := by
      have depth : (2 : Int32).toInt.toNat = 2 := by decide
      rw [depth]
      simp only [rounds_succ, rounds_zero, rewrite, funext (replace_eq_find? _)]
      decide
    obtain ⟨earlier, expanded, -, -, bounded⟩ :=
      Figure.kochSnowflake.grammar.length_le_limit_iff 2 112 _
        (expandBounded_of_le (by decide) size) (by decide) 1 (by decide) (by decide)
    exact ⟨earlier, expanded, bounded (by decide)⟩

/-- A word of two symbols on the way to an empty one, which the limit of one symbol accepts. -/
theorem oversized_round_accepted :
    ofPairs "A".toList [('A', "BB".toList), ('B', [])] 90 = .ok (burst 2) ∧
      ((burst 2).expandBounded 2 1).outcome = .ok [] ∧
      ((burst 2).expand 1).outcome = .ok "BB".toList ∧
      (1 : Count).toNat < "BB".toList.length ∧ (1 : Count).toNat < 2 ^ 64 - 1 :=
  ⟨ofRules_self (burst 2), expandBounded_burst 2 1, expand_burst 2, by decide, by decide⟩

end Grammar

end Fractal
