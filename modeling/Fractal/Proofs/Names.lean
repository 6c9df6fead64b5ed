import Fractal.Figure
import Fractal.Turtle.Setup
import Mathlib

/-!
Values that are looked up by a name of their own.

Where no two values of a list share a name, the first one that has it is the only one. Figures,
operations and policies are each listed in full, so all of them are found by their names.
-/

namespace Fractal

/-- Where names are distinct, what is found by a name is the one value that has it. -/
theorem find?_name_eq_some_iff {α κ : Type} [BEq κ] [LawfulBEq κ] {name : α → κ} {values : List α}
    (distinct : (values.map name).Nodup) {wanted : κ} {value : α} :
    (values.find? fun other => name other == wanted) = some value ↔
      value ∈ values ∧ name value = wanted := by
  constructor
  · intro found
    have named := List.find?_some found
    exact ⟨List.mem_of_find?_eq_some found, eq_of_beq named⟩
  · rintro ⟨member, rfl⟩
    -- Some value of the name is found, and no other one than this has it.
    have isSome : (values.find? fun other => name other == name value).isSome :=
      List.find?_isSome.2 ⟨value, member, beq_self_eq_true (name value)⟩
    obtain ⟨first, found⟩ := Option.isSome_iff_exists.1 isSome
    have named := List.find?_some found
    rw [found, List.inj_on_of_nodup_map distinct (List.mem_of_find?_eq_some found) member
      (eq_of_beq named)]

/-- Every operation is listed. -/
theorem Op.mem_all (op : Op) : op ∈ all := by
  cases op <;> decide

/-- No two operations are written by one name. -/
theorem Op.nodup_names : (all.map name).Nodup := by decide

/-- Every policy is listed. -/
theorem PopPolicy.mem_all (policy : PopPolicy) : policy ∈ all := by
  cases policy <;> decide

/-- The two policies are written by different names. -/
theorem PopPolicy.nodup_names : (all.map name).Nodup := by decide

namespace Figure

/-- Every figure is in the catalogue. -/
theorem mem_all (figure : Figure) : figure ∈ all := by
  cases figure <;> decide

/-- No name stands twice in the catalogue. -/
theorem nodup_names : (all.map name).Nodup := by decide

/-- No two figures have one name. -/
theorem name_injective {figure other : Figure} (same : figure.name = other.name) :
    figure = other :=
  -- Both are in the catalogue, where a name stands for one figure.
  List.inj_on_of_nodup_map nodup_names (mem_all figure) (mem_all other) same

/-- A figure is found by its name. -/
theorem ofName?_name (figure : Figure) : ofName? figure.name = .ok figure := by
  have found := (find?_name_eq_some_iff nodup_names).2 ⟨mem_all figure, rfl⟩
  simp only [ofName?, found]

/-- No figure is found by a name that none has. -/
theorem ofName?_of_ne {name : String} (unknown : ∀ figure : Figure, figure.name ≠ name) :
    ofName? name = .error (.unknownFigure name) := by
  -- The whole catalogue is searched, and every name in it is another one.
  have absent : all.find? (fun figure => figure.name == name) = none := by
    rw [List.find?_eq_none]
    intro figure _
    simpa using unknown figure
  simp only [ofName?, absent]

end Figure

end Fractal
