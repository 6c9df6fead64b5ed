import Fractal.Figure
import Fractal.Proofs.Turtle.Branches
import Fractal.Proofs.Turtle.Continuation

/-!
The first return that finds nothing saved, told by counting.

Main statement: strict settings refuse a word at the first position up to which it takes back more
poses than it saves, and draw every other word. Nothing else about the settings has a part in it.
-/

namespace Fractal

namespace Op

/-- The height of a list is the number of its saves less the number of its returns. -/
theorem height_eq_count_sub_count (ops : List Op) :
    height ops = (ops.count push : Int) - ops.count pop := by
  induction ops with
  | nil => rfl
  | cons op rest ih =>
    rw [height_cons, ih]
    -- A save raises both sides by one, a return lowers both, the rest leave them.
    cases op <;> simp [rise] <;> omega

/-- The positions up to which a list, with the operation there, takes back more than it saves. -/
def Deficit (ops : List Op) : Set Nat :=
  { index | index < ops.length ∧
    (ops.take (index + 1)).count push < (ops.take (index + 1)).count pop }

/-- In deficit the height is below zero after the operation at hand. -/
theorem mem_deficit_iff {ops : List Op} {index : Nat} :
    index ∈ Deficit ops ↔ index < ops.length ∧ heightAt ops (index + 1) < 0 := by
  rw [heightAt, height_eq_count_sub_count]
  exact and_congr_right fun _ => by omega

/-- Without a deficit among the first operations, they need no saved poses. -/
theorem enough_take_of_forall {ops : List Op} {count : Nat}
    (none : ∀ index < count, index ∉ Deficit ops) : Enough 0 (ops.take count) := by
  -- Beyond the end of the list, and with no operation, nothing has to be looked at.
  intro part
  rw [List.take_take, Int.zero_add]
  have within : min part (min count ops.length) = min (min part count) ops.length := by omega
  have same : ops.take (min part count) = ops.take (min part (min count ops.length)) := by
    rw [within, ← List.take_eq_take_min]
  rw [same]
  cases reached : min part (min count ops.length) with
  -- At the start the height is zero.
  | zero => exact Int.le_refl 0
  -- Behind an op it is not negative, unless the op is in deficit.
  | succ index =>
    have free := none index (by omega)
    rw [mem_deficit_iff, not_and, Int.not_lt] at free
    exact free (by omega)

/-- A list needs no saved poses exactly if it is nowhere in deficit. -/
theorem enough_zero_iff {ops : List Op} : Enough 0 ops ↔ Deficit ops = ∅ := by
  constructor
  -- Enough height everywhere leaves no place in deficit.
  · intro enough
    refine Set.eq_empty_iff_forall_notMem.2 fun index short => ?_
    have nonneg := enough (index + 1)
    have below := (mem_deficit_iff.1 short).2
    rw [heightAt] at below
    omega
  -- Nothing in deficit is enough height up to the end.
  · intro empty
    have whole : Enough 0 (ops.take ops.length) :=
      enough_take_of_forall fun index _ => empty ▸ Set.notMem_empty index
    rwa [List.take_length] at whole

/-- A list is nowhere in deficit, or there is a first position where it is. -/
theorem deficit_cases (ops : List Op) :
    Deficit ops = ∅ ∨ ∃ index, IsLeast (Deficit ops) index := by
  -- A set of positions is empty or has a least one.
  rcases (Deficit ops).eq_empty_or_nonempty with none | some
  · exact .inl none
  · exact .inr ⟨_, Nat.sInf_mem some, fun _ member => Nat.sInf_le member⟩

/-- The first position in deficit holds a return, and as many saves as returns come before it. -/
theorem first_deficit {ops : List Op} {index : Nat} (first : IsLeast (Deficit ops) index) :
    ops[index]? = some pop ∧ Enough 0 (ops.take index) ∧ heightAt ops index = 0 := by
  obtain ⟨within, below⟩ := mem_deficit_iff.1 first.1
  -- Before the first one in deficit there is none.
  have enough : Enough 0 (ops.take index) := enough_take_of_forall fun earlier before short =>
    Nat.not_le.2 before (first.2 short)
  have above := enough index
  rw [List.take_take, Nat.min_self, Int.zero_add] at above
  change 0 ≤ heightAt ops index at above
  -- The height falls from zero or more to below it, which only a return brings about.
  obtain ⟨returns, level⟩ := eq_pop_of_fall (Int.lt_of_lt_of_le below above)
  exact ⟨returns, enough, by omega⟩

end Op

namespace Walker

variable {σ π : Type} (gait : Gait σ π) (pose : σ)

/-- A list that is nowhere in deficit is walked without an unmatched return. -/
theorem skipped_of_no_deficit {ops : List Op} (none : Op.Deficit ops = ∅) :
    ((start pose).walk gait ops).skipped = [] := by
  -- With enough saved poses all along, a walk notes nothing.
  have kept := (walk_enough gait ops (w := start pose) (List.append_nil []).symm
    (Op.enough_zero_iff.2 none)).1
  rw [skipped, kept]
  rfl

/-- The first unmatched return stands at the first position in deficit. -/
theorem head?_skipped_of_first_deficit {ops : List Op} {index : Nat}
    (first : IsLeast (Op.Deficit ops) index) :
    ((start pose).walk gait ops).skipped.head? = some index := by
  obtain ⟨returns, enough, level⟩ := Op.first_deficit first
  obtain ⟨within, _⟩ := first.1
  have split : ops = ops.take index ++ .pop :: ops.drop (index + 1) := by
    have head := List.getElem?_eq_some_iff.1 returns
    rw [← head.2, ← List.drop_eq_getElem_cons, List.take_append_drop]
  -- Before that position nothing is skipped, and nothing is left to return to.
  obtain ⟨kept, left, stack, size⟩ := walk_enough gait (ops.take index) (w := start pose)
    (List.append_nil []).symm enough
  -- The height is zero there, so that the stack is as empty as at the start.
  have empty : ((start pose).walk gait (ops.take index)).saved = [] := by
    rw [Op.heightAt] at level
    rw [stack, List.append_nil, ← List.length_eq_zero_iff]
    simpa [level] using size
  have read : ((start pose).walk gait (ops.take index)).read = index := by
    rw [read_walk, List.length_take, Nat.min_eq_left (Nat.le_of_lt within)]
    exact Nat.zero_add index
  -- The return is noted then, and later ones are noted behind it.
  rw [split, walk_append, walk_cons, step_pop_nil gait empty, walk_eq_atop, skipped_atop, read]
  rw [skipped, kept]
  rfl

end Walker

namespace Plotter

variable {p : Plotter} {word : Word}

/-- Strict settings that are in order draw a word that is nowhere in deficit. -/
theorem interpret_of_no_deficit (strict : p.setup.policy = .strict)
    (valid : p.setup.validate = .ok ()) (none : Op.Deficit (p.table.ops word) = ∅) (g : Grammar) :
    ∃ path, (p.interpret g word).outcome = .ok path ∧
      path.size = (p.table.ops word).count .draw := by
  refine ⟨(p.walk g.angle word).path, ?_, ?_⟩
  -- Nothing is skipped, and a strict policy lets that pass.
  · rw [outcome_of_valid valid, strict, walk, Walker.skipped_of_no_deficit _ _ none]
    rfl
  · exact Walker.length_segments_walk _ _ _

/-- Strict settings that are in order refuse a word at the first position in deficit. -/
theorem interpret_of_first_deficit (strict : p.setup.policy = .strict)
    (valid : p.setup.validate = .ok ()) {index : Nat}
    (first : IsLeast (Op.Deficit (p.table.ops word)) index) (g : Grammar) :
    (p.interpret g word).outcome = .error (.unmatchedPop index) := by
  have head := Walker.head?_skipped_of_first_deficit (Pose.gait p.setup.step g.angle)
    p.setup.pose first
  -- The policy names the first of those that were skipped.
  obtain ⟨later, skipped⟩ := List.head?_eq_some_iff.1 head
  rw [outcome_of_valid valid, strict, walk, skipped, PopPolicy.judge_strict_cons]
  rfl

/-- Strict settings that are in order refuse a word at no position but the first in deficit. -/
theorem interpret_unmatched_iff (strict : p.setup.policy = .strict)
    (valid : p.setup.validate = .ok ()) (g : Grammar) (index : Nat) :
    (p.interpret g word).outcome = .error (.unmatchedPop index) ↔
      IsLeast (Op.Deficit (p.table.ops word)) index := by
  constructor
  · intro refused
    rcases Op.deficit_cases (p.table.ops word) with none | ⟨first, least⟩
    -- Without a deficit the run draws, and is not refused.
    · obtain ⟨path, drawn, _⟩ := interpret_of_no_deficit strict valid none g
      cases drawn.symm.trans refused
    -- With one it is refused for the least position, and for no other.
    · have known := interpret_of_first_deficit strict valid least g
      cases known.symm.trans refused
      exact least
  · exact fun least => interpret_of_first_deficit strict valid least g

/-- Strict settings in order agree on the ending of a word if they agree on its symbols. -/
theorem size_outcome_congr {q : Plotter} (same : q.table = p.table)
    (strict : p.setup.policy = .strict) (strictly : q.setup.policy = .strict)
    (valid : p.setup.validate = .ok ()) (validly : q.setup.validate = .ok ()) (g h : Grammar) :
    (q.interpret h word).outcome.map Path.size = (p.interpret g word).outcome.map Path.size := by
  -- Whether there is a position in deficit, and which one is the first, is read off the table.
  rcases Op.deficit_cases (p.table.ops word) with none | ⟨first, least⟩
  -- None in deficit: both draw, as many strokes as the table has ops that draw.
  · obtain ⟨path, drawn, size⟩ := interpret_of_no_deficit strict valid none g
    rw [← same] at none size
    obtain ⟨other, drawnToo, sizeToo⟩ := interpret_of_no_deficit strictly validly none h
    rw [drawn, drawnToo, Except.map, Except.map, size, sizeToo]
  -- One in deficit: both are refused for the same position.
  · have refused := interpret_of_first_deficit strict valid least g
    rw [← same] at least
    rw [refused, interpret_of_first_deficit strictly validly least h]

/--
Strict settings judge a word by its saves and returns alone, once they are themselves in order.

The word is refused at the first position up to which it takes back more poses than it saves. It is
drawn if there is none, with as many segments as it has drawing symbols. The table of symbols
decides this, so no other strict settings and no other grammar could change it.
-/
theorem interpret_strict (p : Plotter) (strict : p.setup.policy = .strict) (g : Grammar)
    (word : Word) :
    let outcome := (p.interpret g word).outcome
    let ops := p.table.ops word
    if p.setup.step.isFinite = false ∨ p.setup.step ≤ 0 then
      outcome = .error (.badStep p.setup.step)
    else if p.setup.origin.x.isFinite = false ∨ p.setup.origin.y.isFinite = false then
      outcome = .error (.badOrigin p.setup.origin)
    else if p.setup.heading.isFinite = false then
      outcome = .error (.badHeading p.setup.heading)
    else
      (∀ index, outcome = .error (.unmatchedPop index) ↔ IsLeast (Op.Deficit ops) index) ∧
      (Op.Deficit ops = ∅ → ∃ path, outcome = .ok path ∧ path.size = ops.count .draw) ∧
      ∀ (q : Plotter) (h : Grammar), q.table = p.table → q.setup.policy = .strict →
        q.setup.validate = .ok () →
          (q.interpret h word).outcome.map Path.size = outcome.map Path.size := by
  intro outcome ops
  -- The settings are checked before the word is read.
  have checks := p.setup.validate_eq
  split_ifs at checks ⊢ with badStep badOrigin badHeading
  · exact congrArg Run.outcome (interpret_of_invalid checks g word)
  · exact congrArg Run.outcome (interpret_of_invalid checks g word)
  · exact congrArg Run.outcome (interpret_of_invalid checks g word)
  -- With sound settings the word alone decides.
  exact ⟨interpret_unmatched_iff strict checks g,
    fun none => interpret_of_no_deficit strict checks none g,
    fun q h same strictly validly => size_outcome_congr same strict strictly checks validly g h⟩

/-- A return that stands behind the last saved pose is the one that is reported. -/
theorem interpret_strict_behind_branch :
    Plotter.standard.setup.policy = .strict ∧
      (Plotter.standard.interpret Figure.tree1.grammar "[F]F]".toList).outcome =
        .error (.unmatchedPop 4) := by
  have strict : Plotter.standard.setup.policy = .strict := rfl
  -- The bracket that closes nothing is the fifth symbol, and nothing before it falls short.
  have least : IsLeast (Op.Deficit (Plotter.standard.table.ops "[F]F]".toList)) 4 := by
    refine ⟨by constructor <;> decide, ?_⟩
    intro index ⟨_, short⟩
    by_contra early
    rw [Nat.not_le] at early
    interval_cases index <;> exact absurd short (by decide)
  have judged := interpret_strict Plotter.standard strict Figure.tree1.grammar "[F]F]".toList
  rw [if_neg (by decide), if_neg (by decide), if_neg (by decide)] at judged
  exact ⟨strict, (judged.1 4).2 least⟩

end Plotter

end Fractal
