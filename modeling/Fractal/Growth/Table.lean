import Fractal.Count

/-!
Square tables of counts, and their products.

Sums and products stop at the largest count. Because clamping early changes no clamped sum or
product, a product of tables is the exact product cut off once at the end.
-/

namespace Fractal

/-- A count for every ordered pair of `n` slots. -/
abbrev Table (n : Nat) := Vector (Vector Count n) n

namespace Table

variable {n : Nat}

/-- The sum of a row's entries, each as often as its weight says. -/
def weigh (row weights : Vector Count n) : Count :=
  (row.zipWith (· * ·) weights).foldl (· + ·) 0

/-- The weighted sums of all rows. -/
def apply (table : Table n) (weights : Vector Count n) : Vector Count n :=
  table.map fun row => weigh row weights

/-- The rows added up slot by slot, each as often as its weight says. -/
def combine (weights : Vector Count n) (table : Table n) : Vector Count n :=
  (weights.zip table).foldl
    (fun sums entry =>
      -- A row of weight zero adds nothing.
      if entry.1 = 0 then sums
      else sums.zipWith (fun sum count => sum + entry.1 * count) entry.2)
    (Vector.replicate n 0)

/-- The product of two tables: every row of the first combines the rows of the second. -/
def product (first second : Table n) : Table n :=
  first.map fun row => combine row second

end Table

end Fractal
