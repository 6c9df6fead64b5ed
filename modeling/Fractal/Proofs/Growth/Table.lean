import Fractal.Growth.Table
import Mathlib

/-!
Exact tables of natural numbers, and the tables of counts that they are cut off to.

Main statements: products of cut-off tables and rows are the exact products, cut off once, although
every sum and product on the way is cut off and rows of weight zero are skipped. So tables of counts
may be multiplied in any grouping, and the sums in them may be taken in any order.
-/

namespace Fractal

namespace Count

/-- Counts added one after the other make the sum of the numbers, cut off once. -/
theorem foldl_add_clamp {α : Type} (items : List α) (part : α → Nat) (start : Nat) :
    items.foldl (fun sum item => sum + clamp (part item)) (clamp start) =
      clamp (start + (items.map part).sum) := by
  -- The running sum is always a number cut off once, whatever was added to it so far.
  induction items generalizing start with
  | nil => simp
  | cons item rest ih =>
    rw [List.foldl_cons, clamp_add, ih, List.map_cons, List.sum_cons, Nat.add_assoc]

/-- Counts added slot by slot make the sum over all slots, cut off once. -/
theorem foldl_add_finRange {n : Nat} (part : Fin n → Nat) :
    (List.finRange n).foldl (fun sum slot => sum + clamp (part slot)) 0 =
      clamp (∑ slot, part slot) := by
  -- The sum over the slots is the one over their list.
  rw [Fin.sum_univ_def, ← Nat.zero_add (List.sum _)]
  exact foldl_add_clamp (List.finRange n) part 0

/-- Counts are added up to the same sum in every order. -/
theorem foldl_add_perm {α : Type} {items others : List α} (same : items.Perm others)
    (part : α → Count) :
    items.foldl (fun sum item => sum + part item) 0 =
      others.foldl (fun sum item => sum + part item) 0 := by
  -- Both are the exact sum of the numbers, cut off once, and that does not depend on the order.
  have exact (list : List α) : list.foldl (fun sum item => sum + part item) 0 =
      clamp (list.map fun item => (part item).toNat).sum := by
    have summed := foldl_add_clamp list (fun item => (part item).toNat) 0
    simp only [clamp_toNat, Nat.zero_add] at summed
    exact summed
  rw [exact, exact, (same.map _).sum_eq]

/-- A product with nothing adds nothing to a count. -/
private theorem add_zero_mul (sum count : Count) : sum + 0 * count = sum := by
  -- Nothing is added, and the sum cannot leave the range of counts, since it is a count already.
  have none : (0 : Count).toNat = 0 := rfl
  apply ext
  simp [none, sum.toNat_le_top]

end Count

namespace Table

variable {n : Nat}

/-- The row of counts nearest to a row of natural numbers. -/
def clampRow (row : Fin n → Nat) : Vector Count n :=
  Vector.ofFn fun slot => Count.clamp (row slot)

/-- The table of counts nearest to a table of natural numbers. -/
def clamp (exact : Matrix (Fin n) (Fin n) Nat) : Table n :=
  Vector.ofFn fun slot => clampRow (exact slot)

/-- The count in a slot of a cut-off row is the exact number, cut off. -/
@[simp] theorem getElem_clampRow (row : Fin n → Nat) (slot : Nat) (inside : slot < n) :
    (clampRow row)[slot] = Count.clamp (row ⟨slot, inside⟩) := by
  rw [clampRow, Vector.getElem_ofFn]

/-- The row in a slot of a cut-off table is the exact row, cut off. -/
@[simp] theorem getElem_clamp (exact : Matrix (Fin n) (Fin n) Nat) (slot : Nat)
    (inside : slot < n) : (clamp exact)[slot] = clampRow (exact ⟨slot, inside⟩) := by
  rw [clamp, Vector.getElem_ofFn]

/-- The numbers that a row of counts stands for. -/
def rowNumbers (row : Vector Count n) : Fin n → Nat := fun slot => row[slot].toNat

/-- The numbers that a table of counts stands for. -/
def numbers (table : Table n) : Matrix (Fin n) (Fin n) Nat := fun slot => rowNumbers table[slot]

/-- No number of a row is cut off, since each of them is one of a count. -/
@[simp] theorem clampRow_rowNumbers (row : Vector Count n) : clampRow (rowNumbers row) = row := by
  ext slot inside : 1
  -- A count is within the range, so that the cut leaves it.
  rw [getElem_clampRow, rowNumbers]
  exact Count.clamp_toNat _

/-- No number of a table is cut off, since each of them is one of a count. -/
@[simp] theorem clamp_numbers (table : Table n) : clamp (numbers table) = table := by
  ext slot inside : 1
  rw [getElem_clamp]
  exact clampRow_rowNumbers _

/-- The counts with one more in a slot, if there is a slot for it. -/
def enter (counts : Vector Count n) (place : Option (Fin n)) : Vector Count n :=
  place.elim counts fun slot => counts.set slot (counts[slot] + 1)

/-- One more in a slot raises the exact number of that slot and of no other one. -/
theorem enter_clampRow (sofar : Fin n → Nat) (place : Option (Fin n)) :
    enter (clampRow sofar) place =
      clampRow fun slot => sofar slot + if place = some slot then 1 else 0 := by
  ext slot inside : 1
  rw [getElem_clampRow]
  cases place with
  -- No slot: the counts stay.
  | none =>
    rw [enter, Option.elim_none, getElem_clampRow, if_neg (by simp), Nat.add_zero]
  | some home =>
    simp only [enter, Option.elim_some, Vector.getElem_set, Fin.getElem_fin, getElem_clampRow]
    -- The entry at the slot is one more, and the other ones are kept.
    by_cases same : home.val = slot
    · have one : (1 : Count) = Count.clamp 1 := rfl
      subst same
      rw [if_pos rfl, if_pos rfl, one, Count.clamp_add]
    · have differ : some home ≠ some ⟨slot, inside⟩ := fun equal =>
        same (congrArg Fin.val (Option.some.inj equal))
      rw [if_neg same, if_neg differ, Nat.add_zero]

/-- A vector is folded by its slots, from the first to the last. -/
theorem foldl_eq_foldl_finRange {α β : Type} (xs : Vector α n) (f : β → α → β) (start : β) :
    xs.foldl f start = (List.finRange n).foldl (fun sofar slot => f sofar xs[slot]) start := by
  -- The entries of the row are what its slots hold, in order.
  have slots : xs.toList = (List.finRange n).map fun slot => xs[slot] := by
    rw [← List.ofFn_eq_map, ← Vector.toList_ofFn]
    congr 1
    ext slot inside : 1
    rw [Vector.getElem_ofFn]
    rfl
  rw [← Vector.foldl_toList, slots, List.foldl_map]

/-- A row is weighed by its slots, from the first to the last. -/
theorem weigh_eq_foldl (row weights : Vector Count n) :
    weigh row weights =
      (List.finRange n).foldl (fun sum slot => sum + row[slot] * weights[slot]) 0 := by
  rw [weigh, foldl_eq_foldl_finRange]
  simp only [Fin.getElem_fin, Vector.getElem_zipWith]

/-- Weighing a row is weighing the exact row, cut off once. -/
theorem weigh_clampRow (row weights : Fin n → Nat) :
    weigh (clampRow row) (clampRow weights) = Count.clamp (∑ slot, row slot * weights slot) := by
  -- The products are cut off one by one, which the cut of their sum absorbs.
  rw [weigh_eq_foldl]
  simp only [Fin.getElem_fin, getElem_clampRow, Count.clamp_mul]
  exact Count.foldl_add_finRange fun slot => row slot * weights slot

/-- Applying a table of counts is applying the exact table, cut off once. -/
theorem apply_clamp (exact : Matrix (Fin n) (Fin n) Nat) (weights : Fin n → Nat) :
    (clamp exact).apply (clampRow weights) = clampRow (exact.mulVec weights) := by
  -- Row by row, a weighing is one entry of the exact product.
  ext slot inside : 1
  rw [apply, Vector.getElem_map, getElem_clamp, weigh_clampRow, getElem_clampRow]
  rfl

/-- Every slot of combined rows is a sum of its own, to which skipped rows would add nothing. -/
theorem getElem_combine (weights : Vector Count n) (table : Table n) (slot : Fin n) :
    (combine weights table)[slot] =
      (List.finRange n).foldl (fun sum k => sum + weights[k] * table[k][slot]) 0 := by
  have alone : ∀ (sums : Vector Count n) (entry : Count × Vector Count n),
      (if entry.1 = 0 then sums
        else sums.zipWith (fun sum count => sum + entry.1 * count) entry.2)[slot] =
        sums[slot] + entry.1 * entry.2[slot] := by
    intro sums entry
    -- A skipped row would have added nothing times each of its counts.
    by_cases skipped : entry.1 = 0
    · rw [if_pos skipped, skipped, Count.add_zero_mul]
    · rw [if_neg skipped, Fin.getElem_fin, Vector.getElem_zipWith]
      rfl
  -- The slots stay apart from the first row to the last, wherever the sums start.
  have slotwise : ∀ (rows : List (Fin n)) (sums : Vector Count n),
      (rows.foldl (fun sums k => if (weights.zip table)[k].1 = 0 then sums
        else sums.zipWith (fun sum count => sum + (weights.zip table)[k].1 * count)
          (weights.zip table)[k].2) sums)[slot] =
        rows.foldl (fun sum k => sum + weights[k] * table[k][slot]) sums[slot] := by
    intro rows
    induction rows with
    | nil => intro sums; rfl
    | cons k rest ih =>
      intro sums
      rw [List.foldl_cons, List.foldl_cons, ih, alone]
      simp only [Fin.getElem_fin, Vector.getElem_zip]
  rw [combine, foldl_eq_foldl_finRange, slotwise]
  simp only [Fin.getElem_fin, Vector.getElem_replicate]

/-- Combined rows are the exact combination, cut off once. -/
theorem combine_clamp (weights : Fin n → Nat) (exact : Matrix (Fin n) (Fin n) Nat) :
    combine (clampRow weights) (clamp exact) = clampRow (Matrix.vecMul weights exact) := by
  ext slot inside : 1
  -- An entry of the combination is a sum over the rows, in the column of the slot.
  have entry := getElem_combine (clampRow weights) (clamp exact) ⟨slot, inside⟩
  simp only [Fin.getElem_fin, getElem_clampRow, getElem_clamp, Count.clamp_mul] at entry
  rw [entry, getElem_clampRow]
  exact Count.foldl_add_finRange fun k => weights k * exact k ⟨slot, inside⟩

/-- A product of tables of counts is the exact product, cut off once. -/
theorem product_clamp (first second : Matrix (Fin n) (Fin n) Nat) :
    (clamp first).product (clamp second) = clamp (first * second) := by
  -- Every row of the product combines the rows of the second table by the weights of the first.
  ext slot inside : 1
  rw [product, Vector.getElem_map, getElem_clamp, getElem_clamp, combine_clamp]
  rfl

/-- An entry of a product is a sum over the slots between, from the first to the last. -/
theorem getElem_product (first second : Table n) (i j : Fin n) :
    (first.product second)[i][j] =
      (List.finRange n).foldl (fun sum k => sum + first[i][k] * second[k][j]) 0 := by
  rw [← getElem_combine]
  simp only [product, Fin.getElem_fin, Vector.getElem_map]

/-- An entry of weighted sums is a sum over the slots of its row, from the first to the last. -/
theorem getElem_apply (table : Table n) (weights : Vector Count n) (i : Fin n) :
    (table.apply weights)[i] =
      (List.finRange n).foldl (fun sum k => sum + table[i][k] * weights[k]) 0 := by
  simp only [apply, Fin.getElem_fin, Vector.getElem_map, weigh_eq_foldl]

/-- Tables of counts may be multiplied in any grouping. -/
theorem product_assoc (first second third : Table n) :
    (first.product second).product third = first.product (second.product third) := by
  -- The exact tables may be grouped at will, and each side is their product, cut off once.
  rw [← clamp_numbers first, ← clamp_numbers second, ← clamp_numbers third]
  rw [product_clamp, product_clamp, product_clamp, product_clamp, Matrix.mul_assoc]

/-- A product of tables is applied by applying its second table and then its first. -/
theorem apply_product (first second : Table n) (weights : Vector Count n) :
    (first.product second).apply weights = first.apply (second.apply weights) := by
  -- Applying one table after the other is exact as well, up to the single cut.
  rw [← clamp_numbers first, ← clamp_numbers second, ← clampRow_rowNumbers weights]
  rw [product_clamp, apply_clamp, apply_clamp, apply_clamp, Matrix.mulVec_mulVec]

/--
Arithmetic with tables of counts is exact arithmetic with one cut at the end.

Every entry is cut off by itself, at the largest number of 64 bits. Products with tables and with
rows therefore obey the laws of exact ones: they may be grouped at will, and it does not matter in
which order the terms of an entry are added, nor that terms with a factor of zero are left out.
-/
theorem products_exact (first second : Matrix (Fin n) (Fin n) Nat) (weights : Fin n → Nat) :
    (∀ i j, (clamp first)[i][j].toNat = min (first i j) (2 ^ 64 - 1)) ∧
    (∀ i, (clampRow weights)[i].toNat = min (weights i) (2 ^ 64 - 1)) ∧
    (clamp first).product (clamp second) = clamp (first * second) ∧
    (clamp first).apply (clampRow weights) = clampRow (first.mulVec weights) ∧
    ∀ (a b c : Table n) (w : Vector Count n),
      (a.product b).product c = a.product (b.product c) ∧
      (a.product b).apply w = a.apply (b.apply w) ∧
      ∀ order : List (Fin n), order.Perm (List.finRange n) → ∀ i : Fin n,
        (∀ j : Fin n, order.foldl (fun sum k => sum + a[i][k] * b[k][j]) 0 =
          (a.product b)[i][j]) ∧
        order.foldl (fun sum k => sum + a[i][k] * w[k]) 0 = (a.apply w)[i] := by
  refine ⟨fun i j => ?_, fun i => ?_, product_clamp first second, apply_clamp first weights,
    fun a b c w => ⟨product_assoc a b c, apply_product a b w, fun order whole i => ⟨?_, ?_⟩⟩⟩
  · simp [Count.top]
  · simp [Count.top]
  -- The products add from the first slot to the last, and any other order gives the same sum.
  · intro j
    rw [getElem_product, Count.foldl_add_perm whole]
  · rw [getElem_apply, Count.foldl_add_perm whole]

/-- Beside entries that are cut off stands one that is not, whichever term is added first. -/
theorem products_exact_saturated :
    let a : Table 2 := clamp !![2 ^ 63, 1; 0, 2 ^ 64]
    let b : Table 2 := clamp !![2, 0; 2 ^ 64 - 1, 5]
    let order : List (Fin 2) := [1, 0]
    order.Perm (List.finRange 2) ∧
      a.product b = clamp !![2 ^ 65 - 1, 5; 2 ^ 128 - 2 ^ 64, 5 * 2 ^ 64] ∧
      order.foldl (fun sum k => sum + a[0][k] * b[k][1]) 0 = 5 := by
  intro a b order
  have backwards : order.Perm (List.finRange 2) := by decide
  obtain ⟨-, -, exact, -, laws⟩ := products_exact !![2 ^ 63, 1; 0, 2 ^ 64] !![2, 0; 2 ^ 64 - 1, 5]
    ![0, 0]
  -- The exact product has entries far beyond the range, of which the cut makes the top.
  have product : a.product b = clamp !![2 ^ 65 - 1, 5; 2 ^ 128 - 2 ^ 64, 5 * 2 ^ 64] := by
    refine exact.trans (congrArg clamp ?_)
    decide
  have entry := ((laws a b a #v[0, 0]).2.2 order backwards 0).1 1
  refine ⟨backwards, product, entry.trans ?_⟩
  rw [product, Fin.getElem_fin, Fin.getElem_fin, getElem_clamp, getElem_clampRow]
  rfl

end Table

end Fractal
