import Fractal.Turtle.Balance
import Fractal.Turtle.Walker
import Mathlib

/-!
The stack of saved poses follows the height of the operations.

With enough poses saved at the start, every return finds one, and what lies deeper is not touched.
A balanced list needs none, and leaves the stack as it found it.
-/

namespace Fractal

namespace Op

/-- An operation saves a pose, takes one back, or leaves the number of saved poses alone. -/
theorem cases_rise (op : Op) : op = push ∨ op = pop ∨ op.rise = 0 := by
  cases op <;> simp [rise]

/-- So many saved poses are enough for all returns of a list, beside those that it saves. -/
def Enough (saved : Int) (ops : List Op) : Prop :=
  -- After no number of operations more poses have been taken back than there were.
  ∀ count, 0 ≤ saved + height (ops.take count)

/-- No operations need no saved poses. -/
theorem enough_nil {saved : Int} : Enough saved [] ↔ 0 ≤ saved := by
  constructor
  -- What is there at the start is not negative.
  · intro enough
    simpa using enough 0
  · intro nonneg count
    simpa using nonneg

/-- The poses are enough for a list if they are so before and after its first operation. -/
theorem enough_cons {saved : Int} {op : Op} {ops : List Op} :
    Enough saved (op :: ops) ↔ 0 ≤ saved ∧ Enough (saved + op.rise) ops := by
  constructor
  -- The prefixes of the tail are those of the list, one op shorter.
  · intro enough
    refine ⟨by simpa using enough 0, fun count => ?_⟩
    have later := enough (count + 1)
    rw [List.take_succ_cons, height_cons] at later
    omega
  · intro ⟨nonneg, later⟩ count
    -- Nothing of the list needs what is there already, and one more begins with its head.
    cases count with
    | zero => simpa using nonneg
    | succ count =>
      have rest := later count
      rw [List.take_succ_cons, height_cons]
      omega

/-- The poses left by a first list have to be enough for the second one. -/
theorem enough_append {saved : Int} {first second : List Op} :
    Enough saved (first ++ second) ↔ Enough saved first ∧ Enough (saved + height first) second := by
  -- Each operation of the first list changes the number that the rest starts with.
  induction first generalizing saved with
  | nil =>
    rw [List.nil_append, enough_nil, height_nil, Int.add_zero]
    exact ⟨fun enough => ⟨by simpa using enough 0, enough⟩, fun ⟨_, enough⟩ => enough⟩
  | cons op rest ih =>
    rw [List.cons_append, enough_cons, enough_cons, ih, height_cons, Int.add_assoc, and_assoc]

end Op

/-- A list is balanced when it needs no saved poses and adds none. -/
theorem balanced_iff_enough {ops : List Op} :
    Balanced ops ↔ Op.Enough 0 ops ∧ Op.height ops = 0 := by
  constructor
  -- Never below zero, starting from none.
  · intro balanced
    refine ⟨fun count => ?_, balanced.height_eq_zero⟩
    rw [Int.zero_add]
    exact balanced.height_take_nonneg count
  · intro ⟨enough, level⟩
    exact ⟨fun count => by simpa using enough count, level⟩

/-- Whether a list is balanced shows in its own positions, of which there are finitely many. -/
private theorem balanced_iff_bounded {ops : List Op} :
    Balanced ops ↔
      (∀ count ≤ ops.length, 0 ≤ Op.height (ops.take count)) ∧ Op.height ops = 0 := by
  constructor
  · intro balanced
    exact ⟨fun count _ => balanced.height_take_nonneg count, balanced.height_eq_zero⟩
  · intro ⟨within, level⟩
    refine ⟨fun count => ?_, level⟩
    rcases Nat.le_total count ops.length with short | long
    · exact within count short
    -- Beyond the end of the list nothing is added any more.
    · rw [List.take_of_length_le long, level]

/-- Whether a list is balanced is decided by its finitely many initial heights. -/
instance (ops : List Op) : Decidable (Balanced ops) :=
  decidable_of_iff _ balanced_iff_bounded.symm

namespace Balanced

/-- Any number of saved poses is enough for a balanced list. -/
theorem enough {ops : List Op} (balanced : Balanced ops) {saved : Int} (nonneg : 0 ≤ saved) :
    Op.Enough saved ops := by
  intro count
  have within := balanced.height_take_nonneg count
  omega

end Balanced

namespace Walker

variable {σ π : Type}

/-- A save puts the present pose on the stack. -/
@[simp] theorem step_push (gait : Gait σ π) (w : Walker σ π) :
    w.step gait .push = { w with saved := w.here :: w.saved, read := w.read + 1 } := rfl

/-- A return takes the latest pose off the stack and goes there. -/
theorem step_pop_cons (gait : Gait σ π) {w : Walker σ π} {pose : σ} {rest : List σ}
    (stack : w.saved = pose :: rest) :
    w.step gait .pop = { w with here := pose, saved := rest, read := w.read + 1 } := by
  simp only [step, act, stack]

/-- A return with nothing saved is only noted. -/
theorem step_pop_nil (gait : Gait σ π) {w : Walker σ π} (stack : w.saved = []) :
    w.step gait .pop = { w with unmatched := w.read :: w.unmatched, read := w.read + 1 } := by
  simp only [step, act, stack]

/-- All other operations leave the stack and the notes alone. -/
theorem step_level (gait : Gait σ π) (w : Walker σ π) {op : Op} (level : op.rise = 0) :
    (w.step gait op).saved = w.saved ∧ (w.step gait op).unmatched = w.unmatched := by
  -- Five of the ops neither save nor return.
  cases op <;> simp [Op.rise, step, act] at level ⊢

/-- With enough poses on top of the stack, no return is unmatched and none reaches deeper. -/
theorem walk_enough (gait : Gait σ π) (ops : List Op) {w : Walker σ π} {top deep : List σ}
    (stack : w.saved = top ++ deep) (enough : Op.Enough top.length ops) :
    (w.walk gait ops).unmatched = w.unmatched ∧
      ∃ left, (w.walk gait ops).saved = left ++ deep ∧
        (left.length : Int) = top.length + Op.height ops := by
  -- Only a save and a return change the poses on top, and a return finds one there.
  induction ops generalizing w top with
  | nil => exact ⟨rfl, top, stack, by simp⟩
  | cons op rest ih =>
    obtain ⟨_, later⟩ := Op.enough_cons.1 enough
    rw [walk_cons, Op.height_cons]
    rcases op.cases_rise with rfl | rfl | level
    -- A save puts one more pose on top.
    · have grown : (w.step gait .push).saved = (w.here :: top) ++ deep := by
        rw [step_push, stack, List.cons_append]
      obtain ⟨kept, left, stackLeft, size⟩ := ih grown (by simpa [Op.rise] using later)
      refine ⟨kept, left, stackLeft, ?_⟩
      rw [size, List.length_cons, Op.rise]
      omega
    -- With none on top the return would be one too many.
    · cases top with
      | nil =>
        have impossible := later 0
        simp [Op.rise] at impossible
      | cons pose below =>
        rw [step_pop_cons gait stack]
        obtain ⟨kept, left, stackLeft, size⟩ := ih
          (w := { w with here := pose, saved := below ++ deep, read := w.read + 1 }) rfl
          (by simpa [Op.rise] using later)
        refine ⟨kept, left, stackLeft, ?_⟩
        rw [size, List.length_cons, Op.rise]
        omega
    -- Everything else leaves the poses alone.
    · obtain ⟨same, silent⟩ := w.step_level gait level
      rw [level, Int.add_zero] at later
      obtain ⟨kept, left, stackLeft, size⟩ := ih (same.trans stack) later
      exact ⟨kept.trans silent, left, stackLeft, by rw [size, level]; omega⟩

/-- A balanced list leaves the stack as it was, and none of its returns is unmatched. -/
theorem walk_balanced (gait : Gait σ π) {ops : List Op} (balanced : Balanced ops)
    (w : Walker σ π) :
    (w.walk gait ops).saved = w.saved ∧ (w.walk gait ops).unmatched = w.unmatched := by
  -- Everything saved lies deeper than what the list needs, which is nothing.
  have untouched : w.saved = [] ++ w.saved := rfl
  obtain ⟨kept, left, stackLeft, size⟩ := walk_enough gait ops untouched (balanced.enough (by simp))
  -- As many poses are left on top as there were, which is none.
  have none : left = [] := by
    rw [balanced.height_eq_zero] at size
    exact List.length_eq_zero_iff.1 (by simpa using size)
  exact ⟨by rw [stackLeft, none, List.nil_append], kept⟩

/-- Every operation counts as one symbol that was read. -/
@[simp] theorem read_walk (gait : Gait σ π) (w : Walker σ π) (ops : List Op) :
    (w.walk gait ops).read = w.read + ops.length := by
  -- Whatever an operation does, it is one symbol.
  induction ops generalizing w with
  | nil => rfl
  | cons op rest ih =>
    rw [walk_cons, ih, List.length_cons]
    simp only [step]
    omega

end Walker

end Fractal
