import Fractal.Wire.Json

/-! Ways to write values as JSON values and to read them back, for plain kinds of values. -/

namespace Fractal

/-- How the values of one kind are written and read. -/
structure Codec (α : Type) where
  /-- The JSON value that is written. -/
  encode : α → Json
  /-- The value that is read, or the reason against it. -/
  decode : Json → Except DecodeFault α

namespace Codec

variable {α β : Type}

/-- The values of one kind written as those of another. -/
def map (c : Codec α) (pack : α → β) (unpack : β → α) : Codec β where
  encode value := c.encode (unpack value)
  decode json := (c.decode json).map pack

/-- The values of one kind written as those of another, of which only some can be read. -/
def refine (c : Codec α) (pack : α → Except DecodeFault β) (unpack : β → α) : Codec β where
  encode value := c.encode (unpack value)
  decode json := c.decode json >>= pack

/-- A text is written as it is. -/
def text : Codec String where
  encode value := .text value
  decode
    | .text value => .ok value
    | _ => .error .invalidType

/-- A word is written as the text of its symbols. -/
def word : Codec Word :=
  text.map String.toList String.ofList

/-- A symbol is written as the text of that symbol alone. -/
def symbol : Codec Char :=
  word.refine
    (fun
      | [symbol] => .ok symbol
      | _ => .error .invalidValue)
    (fun symbol => [symbol])

/-- The double nearest to a whole number. -/
def nearest (n : Int) : Float :=
  let magnitude := Float.ofScientific n.natAbs false 0
  if n < 0 then -magnitude else magnitude

/-- A finite number is written as a number, and any other as nothing; nothing cannot be read. -/
def float : Codec Float where
  encode value := if finite : value.isFinite = true then .real value finite else .null
  decode
    | .real value _ => .ok value
    | .whole n => if (nearest n).isFinite then .ok (nearest n) else .error .invalidType
    | _ => .error .invalidType

/-- The least whole number of 64 bits. -/
def least64 : Int := Int64.minValue.toInt

/-- A whole number between two ends; one of 64 bits outside them is of the right kind. -/
def whole (low high : Int) : Codec Int where
  encode value := .whole value
  decode
    | .whole n =>
      if low ≤ n ∧ n ≤ high then .ok n
      else if least64 ≤ n ∧ n ≤ Count.top then .error .invalidValue
      else .error .invalidType
    | _ => .error .invalidType

/-- A signed number of 32 bits. -/
def int32 : Codec Int32 :=
  (whole Int32.minValue.toInt Int32.maxValue.toInt).map Int32.ofInt Int32.toInt

/-- A natural number of at most 64 bits. -/
def natural : Codec Nat :=
  (whole 0 Count.top).map Int.toNat Int.ofNat

/-- A count. -/
def count : Codec Count :=
  natural.map Count.clamp Count.toNat

/-- The values of a list, one after the other. -/
def list (c : Codec α) : Codec (List α) where
  encode values := .array (values.map c.encode)
  decode
    | .array items => items.mapM c.decode
    | _ => .error .invalidType

/-- One of finitely many values, by name. -/
def variant (all : List α) (name : α → String) : Codec α where
  encode value := .text (name value)
  decode json :=
    let named (wanted : String) : Except DecodeFault α :=
      match all.find? fun value => name value == wanted with
      | some value => .ok value
      | none => .error (.unknownVariant wanted (all.map name))
    match json with
    | .text wanted => named wanted
    -- The name may also stand as the only field of an object, with nothing as its value.
    | .object [(wanted, .null)] => named wanted
    | .object [(wanted, _)] => named wanted >>= fun _ => .error .invalidType
    | .object _ => .error .invalidValue
    | _ => .error .invalidType

end Codec

end Fractal
