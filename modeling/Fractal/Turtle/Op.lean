import Fractal.Grammar.Rule

/-! The operations of a turtle, and tables that give symbols their operations. -/

namespace Fractal

/-- What a turtle does at one symbol. -/
inductive Op where
  /-- Go one step forward and leave a segment. -/
  | draw
  /-- Go one step forward and leave nothing. -/
  | move
  /-- Turn counter-clockwise by the turn angle. -/
  | turnLeft
  /-- Turn clockwise by the turn angle. -/
  | turnRight
  /-- Save the pose. -/
  | push
  /-- Go back to the pose saved last. -/
  | pop
  /-- Do nothing. -/
  | ignore
  deriving DecidableEq, Repr

namespace Op

/-- Every operation. -/
def all : List Op := [draw, move, turnLeft, turnRight, push, pop, ignore]

/-- The name that an operation is written by. -/
def name : Op → String
  | draw => "Draw"
  | move => "Move"
  | turnLeft => "TurnLeft"
  | turnRight => "TurnRight"
  | push => "Push"
  | pop => "Pop"
  | ignore => "Ignore"

end Op

/-- The operations of symbols; a later binding of a symbol hides its earlier ones. -/
structure SymbolTable where
  /-- Every binding made so far, the latest first. -/
  bindings : List (Char × Op)
  deriving DecidableEq

namespace SymbolTable

/-- The customary symbols of a turtle. -/
def customary : List (Char × Op) :=
  [('F', .draw), ('+', .turnLeft), ('-', .turnRight), ('[', .push), (']', .pop)]

/-- The table of the customary symbols. -/
def standard : SymbolTable := { bindings := customary }

/-- The table after a symbol got another operation. -/
def assign (t : SymbolTable) (symbol : Char) (op : Op) : SymbolTable :=
  { bindings := (symbol, op) :: t.bindings }

/-- The operation of a symbol; one that was never bound does nothing. -/
def op (t : SymbolTable) (symbol : Char) : Op :=
  (t.bindings.lookup symbol).getD .ignore

/-- The operations of a word's symbols, in order. -/
def ops (t : SymbolTable) (word : Word) : List Op :=
  word.map t.op

/-- The operation of the first symbol comes before those of the others. -/
theorem ops_cons (t : SymbolTable) (symbol : Char) (rest : Word) :
    t.ops (symbol :: rest) = t.op symbol :: t.ops rest := rfl

/-- The operations of two words follow one another. -/
@[simp] theorem ops_append (t : SymbolTable) (first second : Word) :
    t.ops (first ++ second) = t.ops first ++ t.ops second :=
  List.map_append

/-- A word has as many operations as symbols. -/
@[simp] theorem length_ops (t : SymbolTable) (word : Word) : (t.ops word).length = word.length :=
  List.length_map _

/-- A new binding decides for its own symbol and for no other one. -/
theorem op_assign (t : SymbolTable) (symbol other : Char) (op : Op) :
    (t.assign symbol op).op other = if other = symbol then op else t.op other := by
  by_cases same : other = symbol
  · simp [assign, SymbolTable.op, same]
  · have differ : (other == symbol) = false := by simpa using same
    simp [assign, SymbolTable.op, List.lookup_cons, differ, same]

/-- A symbol does nothing, or what a binding of it says. -/
theorem op_cases (t : SymbolTable) (symbol : Char) :
    t.op symbol = .ignore ∨ (symbol, t.op symbol) ∈ t.bindings := by
  cases found : t.bindings.lookup symbol with
  | none => exact .inl (by rw [op, found, Option.getD_none])
  | some bound =>
    obtain ⟨before, after, split, -⟩ := List.lookup_eq_some_iff.1 found
    refine .inr ?_
    rw [op, found, Option.getD_some, split]
    exact List.mem_append_right _ List.mem_cons_self

/-- Only one of the customary symbols draws. -/
theorem standard_op_eq_draw {symbol : Char} :
    standard.op symbol = .draw ↔ symbol = 'F' := by
  constructor
  · intro draws
    rcases standard.op_cases symbol with ignored | bound
    · cases ignored.symm.trans draws
    · rw [draws] at bound
      simpa [standard, customary] using bound
  · rintro rfl
    rfl

end SymbolTable

end Fractal
