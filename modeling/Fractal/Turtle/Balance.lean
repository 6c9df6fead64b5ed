import Fractal.Turtle.Op

/-! How many poses a list of operations saves and takes back, and lists that leave none behind. -/

namespace Fractal

namespace Op

/-- How many saved poses there are more after an operation than before it. -/
def rise : Op → Int
  | push => 1
  | pop => -1
  | draw | move | turnLeft | turnRight | ignore => 0

/-- How many saved poses there are more after all operations than before them. -/
def height (ops : List Op) : Int :=
  ops.foldr (fun op above => op.rise + above) 0

/-- No operations change no height. -/
@[simp] theorem height_nil : height [] = 0 := rfl

/-- The height of a list is the rise of its first operation and the height of the others. -/
@[simp] theorem height_cons (op : Op) (ops : List Op) :
    height (op :: ops) = op.rise + height ops := rfl

/-- The heights of two lists add up. -/
@[simp] theorem height_append (first second : List Op) :
    height (first ++ second) = height first + height second := by
  induction first with
  | nil => simp
  | cons op rest ih => simp [ih, Int.add_assoc]

end Op

/-- Operations that take back exactly the poses they save, and none before it is saved. -/
structure Balanced (ops : List Op) : Prop where
  /-- After no number of operations more poses have been taken back than saved. -/
  height_take_nonneg : ∀ count, 0 ≤ Op.height (ops.take count)
  /-- In the end as many poses have been taken back as saved. -/
  height_eq_zero : Op.height ops = 0

namespace Balanced

/-- An operation that neither saves nor takes back is balanced alone. -/
theorem singleton {op : Op} (level : op.rise = 0) : Balanced [op] where
  height_take_nonneg count := by cases count <;> simp [level]
  height_eq_zero := by simp [level]

end Balanced

end Fractal
