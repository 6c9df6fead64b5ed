import Fractal.Count
import Fractal.Plane.Point
import Fractal.Wire.Record

/-!
What the wire format takes from libraries.

The types that a host exchanges only say what they consist of. How plain values become JSON, and
how lists, choices and records are made of their parts, is left to a library for JSON values, and
how points are written to the library that points come from.
-/

namespace Fractal

/-- Ways to write and read all that the types of a wire format are put together from. -/
structure Wire where
  /-- Texts. -/
  text : Codec String
  /-- Single symbols. -/
  symbol : Codec Char
  /-- Numbers in double precision. -/
  float : Codec Float
  /-- Signed numbers of 32 bits. -/
  int32 : Codec Int32
  /-- Natural numbers of at most 64 bits. -/
  natural : Codec Nat
  /-- Counts. -/
  count : Codec Count
  /-- Points of the plane. -/
  point : Codec Point
  /-- Lists of values that are each written in the same way. -/
  list {α : Type} (item : Codec α) : Codec (List α)
  /-- Finitely many values that go by names. -/
  variant {α : Type} (all : List α) (name : α → String) : Codec α
  /-- Records with named fields. -/
  record {ρ : Type} (r : Record ρ) : Codec ρ
  /-- Values that are written as raw ones, and made of raw ones by a check. -/
  checked {α β : Type} (raw : Codec α) (check : α → Except GrammarFault β) (lay : β → α) : Codec β

end Fractal
