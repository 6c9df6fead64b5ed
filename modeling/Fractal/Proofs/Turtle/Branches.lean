import Fractal.Proofs.Turtle.Stack

/-!
Branches, and the operations that still count after them.

A save and the return to it enclose a balanced list, and two such pairs never cross. What happened
inside a pair is forgotten when its return is reached, and everything else lives on.
-/

namespace Fractal

namespace Op

/-- A step forward or a turn, as opposed to what only concerns the saved poses or does nothing. -/
def isMotion : Op → Bool
  | draw | move | turnLeft | turnRight => true
  | push | pop | ignore => false

/-- A save and the return that goes back to it, by their positions in a list of operations. -/
structure Matched (ops : List Op) (save back : Nat) : Prop where
  /-- The save comes before its return. -/
  before : save < back
  /-- The first position holds a save. -/
  saves : ops[save]? = some push
  /-- The second position holds a return. -/
  returns : ops[back]? = some pop
  /-- Whatever is saved between them is taken back between them. -/
  between : Balanced ((ops.take back).drop (save + 1))

/-- Whether two positions match is decided by the operations there and between them. -/
instance (ops : List Op) (save back : Nat) : Decidable (Matched ops save back) :=
  decidable_of_iff (save < back ∧ ops[save]? = some push ∧ ops[back]? = some pop ∧
      Balanced ((ops.take back).drop (save + 1)))
    ⟨fun ⟨before, saves, returns, between⟩ => ⟨before, saves, returns, between⟩,
      fun ⟨before, saves, returns, between⟩ => ⟨before, saves, returns, between⟩⟩

/-- A position lies in a branch that was closed before some later position. -/
def Enclosed (ops : List Op) (now index : Nat) : Prop :=
  ∃ save < index, ∃ back < now, index < back ∧ Matched ops save back

/-- Whether a position was enclosed is decided by the finitely many pairs around it. -/
instance (ops : List Op) (now index : Nat) : Decidable (Enclosed ops now index) :=
  inferInstanceAs (Decidable (∃ save < index, ∃ back < now, index < back ∧ Matched ops save back))

/-- The positions of the motions before some position that no closed branch encloses, in order. -/
def live (ops : List Op) (now : Nat) : List Nat :=
  (List.range now).filter fun index =>
    ops[index]?.any isMotion && !decide (Enclosed ops now index)

/-! ### Heights at positions -/

/-- How many saved poses there are more before some position than at the start. -/
def heightAt (ops : List Op) (index : Nat) : Int :=
  height (ops.take index)

/-- An operation adds its rise to the height before it. -/
theorem heightAt_succ {ops : List Op} {index : Nat} {op : Op} (here : ops[index]? = some op) :
    heightAt ops (index + 1) = heightAt ops index + op.rise := by
  rw [heightAt, heightAt, List.take_add_one, here, height_append]
  simp

/-- The height at a later position is that at an earlier one and what rises between them. -/
private theorem heightAt_add_height_between (ops : List Op) {first last : Nat}
    (ordered : first ≤ last) :
    heightAt ops last = heightAt ops first + height ((ops.take last).drop first) := by
  -- The operations up to the later position are those up to the earlier one and those between.
  have front : (ops.take last).take first = ops.take first := by
    rw [List.take_take, Nat.min_eq_left ordered]
  unfold heightAt
  rw [← front, ← height_append, List.take_append_drop]

/-- Only a return brings the height down. -/
theorem eq_pop_of_fall {ops : List Op} {index : Nat}
    (falls : heightAt ops (index + 1) < heightAt ops index) :
    ops[index]? = some pop ∧ heightAt ops index = heightAt ops (index + 1) + 1 := by
  cases here : ops[index]? with
  -- Behind the end of the list the height stays as it is.
  | none =>
    have same : heightAt ops (index + 1) = heightAt ops index := by
      rw [heightAt, heightAt, List.take_add_one, here, Option.toList_none, List.append_nil]
    omega
  | some op =>
    have next := heightAt_succ here
    rcases op.cases_rise with rfl | rfl | level
    -- A save would raise it.
    · simp only [rise] at next
      omega
    -- A return lowers it by one.
    · simp only [rise] at next
      exact ⟨rfl, by omega⟩
    · omega

/-- A stretch is balanced when it stays above its first height and comes back to it. -/
theorem balanced_between_iff (ops : List Op) {first last : Nat} (ordered : first ≤ last) :
    Balanced ((ops.take last).drop first) ↔
      (∀ index, first ≤ index → index ≤ last → heightAt ops first ≤ heightAt ops index) ∧
        heightAt ops last = heightAt ops first := by
  have whole := heightAt_add_height_between ops ordered
  -- The first operations of the stretch are those up to some position in it.
  have part : ∀ count, ((ops.take last).drop first).take count =
      (ops.take (min (first + count) last)).drop first := by
    intro count
    rw [List.take_drop, List.take_take]
  constructor
  -- A stretch that is balanced never comes below where it starts.
  · intro balanced
    refine ⟨fun index after within => ?_, by rw [whole, balanced.height_eq_zero, Int.add_zero]⟩
    have upTo := balanced.height_take_nonneg (index - first)
    rw [part, Nat.add_sub_cancel' after, Nat.min_eq_left within] at upTo
    rw [heightAt_add_height_between ops after]
    omega
  -- Heights above that of the start are heights above zero for the stretch alone.
  · intro ⟨above, level⟩
    refine ⟨fun count => ?_, by omega⟩
    have upTo : first ≤ min (first + count) last := by omega
    have high := above _ upTo (Nat.min_le_right _ _)
    rw [heightAt_add_height_between ops upTo] at high
    rw [part]
    omega

/-- A position at which the pose of some save is the one saved last. -/
structure Inside (ops : List Op) (save now : Nat) : Prop where
  /-- The save comes before the position. -/
  before : save < now
  /-- The earlier position holds a save. -/
  saves : ops[save]? = some push
  /-- The saved pose was not taken back since. -/
  above : ∀ index, save < index → index ≤ now → heightAt ops (save + 1) ≤ heightAt ops index
  /-- No other pose that was saved since is left. -/
  level : heightAt ops now = heightAt ops (save + 1)

/-- A return matches the save of the pose that was saved last. -/
theorem matched_iff_inside {ops : List Op} {save back : Nat} :
    Matched ops save back ↔ Inside ops save back ∧ ops[back]? = some pop := by
  -- What lies between is balanced exactly if it stays above the height after the save.
  constructor
  · intro pair
    obtain ⟨above, level⟩ := (balanced_between_iff ops pair.before).1 pair.between
    exact ⟨⟨pair.before, pair.saves, above, level⟩, pair.returns⟩
  · intro ⟨inside, returns⟩
    refine ⟨inside.before, inside.saves, returns, ?_⟩
    exact (balanced_between_iff ops inside.before).2 ⟨inside.above, inside.level⟩

/-- Inside a branch the height is above that before its save. -/
theorem Inside.heightAt_lt {ops : List Op} {save now index : Nat} (inside : Inside ops save now)
    (after : save < index) (within : index ≤ now) : heightAt ops save < heightAt ops index := by
  have up := heightAt_succ inside.saves
  have high := inside.above index after within
  simp only [rise] at up
  omega

/-- The return to a save brings the height back to that before the save. -/
theorem Matched.heightAt_return {ops : List Op} {save back : Nat} (pair : Matched ops save back) :
    heightAt ops (back + 1) = heightAt ops save := by
  obtain ⟨inside, returns⟩ := matched_iff_inside.1 pair
  have up := heightAt_succ pair.saves
  have down := heightAt_succ returns
  have level := inside.level
  simp only [rise] at up down
  omega

/-- Right after a save, its pose is the one saved last. -/
theorem Inside.start {ops : List Op} {save : Nat} (saves : ops[save]? = some push) :
    Inside ops save (save + 1) where
  before := Nat.lt_succ_self save
  saves := saves
  above index after within := by
    have same : index = save + 1 := by omega
    rw [same]
  level := rfl

/-- The pose saved last stays so as long as nothing is saved or taken back. -/
theorem Inside.succ {ops : List Op} {save now : Nat} {op : Op} (inside : Inside ops save now)
    (here : ops[now]? = some op) (level : op.rise = 0) : Inside ops save (now + 1) := by
  have same := heightAt_succ here
  have before := inside.before
  have flat := inside.level
  refine ⟨by omega, inside.saves, fun index after within => ?_, by omega⟩
  -- Only the height at the new position has to be looked at, and it is the one before it.
  rcases Nat.lt_or_eq_of_le within with earlier | rfl
  · exact inside.above index after (by omega)
  · omega

/-- After the return to a save, the pose that was saved last before it is so again. -/
theorem Inside.after_return {ops : List Op} {outer save back : Nat} (inside : Inside ops outer save)
    (pair : Matched ops save back) : Inside ops outer (back + 1) := by
  obtain ⟨inner, _⟩ := matched_iff_inside.1 pair
  have down := pair.heightAt_return
  have flat := inside.level
  have first := inside.before
  have second := pair.before
  refine ⟨by omega, inside.saves, fun index after within => ?_, by omega⟩
  -- Up to the save the outer branch decides, and from there to the return the inner one.
  rcases Nat.lt_or_ge save index with late | early
  · rcases Nat.lt_or_eq_of_le within with earlier | rfl
    · have high := inner.heightAt_lt late (by omega)
      omega
    · omega
  · exact inside.above index after early

/-- A position at which no saved pose is left. -/
def Settled (ops : List Op) (now : Nat) : Prop :=
  ∀ index ≤ now, heightAt ops now ≤ heightAt ops index

/-- Nothing is saved before the first position. -/
theorem settled_zero (ops : List Op) : Settled ops 0 := by
  intro index within
  have same : index = 0 := by omega
  rw [same]

/-- Without a save, nothing is left that was not there before. -/
theorem Settled.succ {ops : List Op} {now : Nat} {op : Op} (settled : Settled ops now)
    (here : ops[now]? = some op) (falls : op.rise ≤ 0) : Settled ops (now + 1) := by
  have next := heightAt_succ here
  intro index within
  -- The new position is no higher than the old one, and that was no higher than all before it.
  rcases Nat.lt_or_eq_of_le within with earlier | rfl
  · have low := settled index (by omega)
    omega
  · exact Int.le_refl _

/-- After the return to a save, nothing is left if nothing was left before it. -/
theorem Settled.after_return {ops : List Op} {save back : Nat} (settled : Settled ops save)
    (pair : Matched ops save back) : Settled ops (back + 1) := by
  obtain ⟨inner, _⟩ := matched_iff_inside.1 pair
  intro index within
  rw [pair.heightAt_return]
  -- Up to the save nothing was lower than it, and from there to the return nothing is.
  rcases Nat.lt_or_ge save index with late | early
  · rcases Nat.lt_or_eq_of_le within with earlier | rfl
    · exact Int.le_of_lt (inner.heightAt_lt late (by omega))
    · exact Int.le_of_eq pair.heightAt_return.symm
  · exact settled index early

/-- A return that finds nothing saved matches no save. -/
theorem Settled.not_matched {ops : List Op} {now : Nat} (settled : Settled ops now) (save : Nat) :
    ¬Matched ops save now := by
  -- Where a branch ends the height is above that at its save, and here it is not.
  intro pair
  obtain ⟨inside, _⟩ := matched_iff_inside.1 pair
  have above := inside.heightAt_lt pair.before (Nat.le_refl now)
  exact Int.not_le.2 above (settled save (Nat.le_of_lt pair.before))

/-- Two pairs do not cross: a save inside another branch is returned to before that branch ends. -/
theorem Matched.not_cross {ops : List Op} {save back outer last : Nat}
    (pair : Matched ops save back) (around : Matched ops outer last) (first : outer < save)
    (crossed : save < last) : back < last := by
  obtain ⟨inner, _⟩ := matched_iff_inside.1 pair
  obtain ⟨wide, _⟩ := matched_iff_inside.1 around
  -- If the outer branch ended first, it would end above the height at the inner save.
  by_contra late
  have high := inner.heightAt_lt crossed (Nat.not_lt.1 late)
  rw [wide.level] at high
  exact Int.not_le.2 high (wide.above save first (Nat.le_of_lt crossed))

/-! ### The live positions, step by step -/

/-- A branch around a position stays one when more operations follow. -/
private theorem Enclosed.succ {ops : List Op} {now index : Nat}
    (enclosed : Enclosed ops now index) : Enclosed ops (now + 1) index := by
  -- A pair that had closed by some position has closed by the next one.
  obtain ⟨save, first, back, last, inner, pair⟩ := enclosed
  exact ⟨save, first, back, Nat.lt_succ_of_lt last, inner, pair⟩

/-- No branch around a position is closed right after it. -/
private theorem not_enclosed_of_le {ops : List Op} {now index : Nat} (late : now ≤ index + 1) :
    ¬Enclosed ops now index := by
  -- A pair around the position would have to end after it and before the later one.
  intro ⟨save, first, back, last, inner, pair⟩
  omega

/-- Where no branch ends, a motion is added to the live positions and nothing is taken from them. -/
theorem live_succ {ops : List Op} {now : Nat} (noReturn : ∀ save, ¬Matched ops save now) :
    live ops (now + 1) = live ops now ++ if ops[now]?.any isMotion then [now] else [] := by
  -- A pair that closes by now closed before, since none closes here.
  have same : ∀ index, Enclosed ops (now + 1) index ↔ Enclosed ops now index := by
    intro index
    constructor
    · intro ⟨save, first, back, last, inner, pair⟩
      rcases Nat.lt_or_eq_of_le (Nat.le_of_lt_succ last) with earlier | rfl
      · exact ⟨save, first, back, earlier, inner, pair⟩
      · exact absurd pair (noReturn save)
    · exact Enclosed.succ
  have latest : ¬Enclosed ops now now := not_enclosed_of_le (Nat.le_succ now)
  rw [live, live, List.range_succ, List.filter_append]
  simp only [same, List.filter_singleton, latest, decide_false, Bool.not_false, Bool.and_true]
  -- What remains is whether the op at hand is a motion.
  cases ops[now]?.any isMotion <;> rfl

/-- The live positions after a return are those that were live at the save. -/
theorem live_after_return {ops : List Op} {save back : Nat} (pair : Matched ops save back) :
    live ops (back + 1) = live ops save := by
  have ordered := pair.before
  -- Before the save nothing changes, since no other branch that ends by now begins before it.
  have earlier : ∀ index, index < save →
      (Enclosed ops (back + 1) index ↔ Enclosed ops save index) := by
    intro index within
    constructor
    · intro ⟨outer, first, last, done, inner, around⟩
      refine ⟨outer, first, last, ?_, inner, around⟩
      rcases Nat.lt_trichotomy last save with sooner | rfl | later
      · exact sooner
      -- The same position cannot be a save and a return.
      · have both := around.returns.symm.trans pair.saves
        cases both
      -- A branch that begins before the save and ends inside would cross it.
      · have crossed := pair.not_cross around (by omega) later
        omega
    · intro ⟨outer, first, last, done, inner, around⟩
      exact ⟨outer, first, last, by omega, inner, around⟩
  -- From the save to the return nothing lives: both are no motions, and they enclose the rest.
  have later : ∀ index, save ≤ index → index ≤ back →
      (ops[index]?.any isMotion && !decide (Enclosed ops (back + 1) index)) = false := by
    intro index after within
    rcases Nat.lt_or_eq_of_le after with inside | rfl
    · rcases Nat.lt_or_eq_of_le within with before | rfl
      -- Strictly between the two, the pair itself encloses the position.
      · have enclosed : Enclosed ops (back + 1) index :=
          ⟨save, inside, back, Nat.lt_succ_self back, before, pair⟩
        simp [enclosed]
      · simp [pair.returns, isMotion]
    · simp [pair.saves, isMotion]
  -- So the later positions can be cut off, and the earlier ones pass the same test.
  have split : List.range (back + 1) =
      List.range save ++ (List.range (back + 1 - save)).map (save + ·) := by
    rw [← List.range_add, Nat.add_sub_cancel' (by omega)]
  rw [live, live, split, List.filter_append]
  have rest : ((List.range (back + 1 - save)).map (save + ·)).filter (fun index =>
      ops[index]?.any isMotion && !decide (Enclosed ops (back + 1) index)) = [] := by
    rw [List.filter_eq_nil_iff]
    intro index member
    obtain ⟨offset, within, rfl⟩ := List.mem_map.1 member
    have bound := List.mem_range.1 within
    rw [later _ (by omega) (by omega)]
    exact Bool.false_ne_true
  rw [rest, List.append_nil]
  apply List.filter_congr
  intro index member
  simp only [earlier index (List.mem_range.1 member)]

end Op

end Fractal
