import Fractal.Wire.Library

/-!
The library that hosts exchange values with.

A record is written as an object. It is read from an object, whose order does not matter and whose
unknown fields are passed over, or from a list of the fields in their declared order. Objects with
a field that is given twice are refused.
-/

namespace Fractal

/-- What is wrong with one field of an object. -/
inductive Flaw where
  /-- The value of the field is refused. -/
  | refused (name : String) (cause : DecodeFault)
  /-- The field is not given. -/
  | missing (name : String)

namespace Flaw

/-- The flaw that is reported of two: a refused value before a missing one, then the least name. -/
def first : Flaw → Flaw → Flaw
  | .refused name cause, .refused other reason =>
    if other < name then .refused other reason else .refused name cause
  | .missing _, .refused other reason => .refused other reason
  -- Of two missing fields the one declared first is reported, whatever its name.
  | flaw, _ => flaw

/-- The refusal that a flaw leads to. -/
def fault : Flaw → DecodeFault
  | .refused _ cause => cause
  | .missing name => .missingField name

end Flaw

namespace Record

variable {ρ : Type}

/-- The value that is read for a field, with what to say if it is refused or missing. -/
def Field.read {ε : Type} (field : Field ρ) (given : Option Json) (refused : DecodeFault → ε)
    (missing : ε) : Except ε field.Value :=
  match given, field.fallback with
  | some json, _ => (field.codec.decode json).mapError refused
  | none, some value => .ok value
  | none, none => .error missing

/-- The values of some fields, read from what is given under their names. -/
def readNamed (given : String → Option Json) : (fields : List (Field ρ)) →
    Except Flaw (Values fields)
  | [] => .ok ()
  | field :: rest =>
    match field.read (given field.name) (.refused field.name) (.missing field.name),
      readNamed given rest with
    | .ok value, .ok others => .ok (value, others)
    | .error flaw, .ok _ => .error flaw
    | .ok _, .error flaw => .error flaw
    -- Both are told apart by name, since an object may be read in any order.
    | .error flaw, .error other => .error (flaw.first other)

/-- The values of some fields, read one after the other from a list that holds no more. -/
def readPlaced : (fields : List (Field ρ)) → List Json → Except DecodeFault (Values fields)
  | [], items => if items.isEmpty then .ok () else .error .invalidLength
  | field :: rest, items => do
    let value ← field.read items.head? id .invalidLength
    let others ← readPlaced rest items.tail
    return (value, others)

/-- A record written as an object, and read from an object or a list. -/
def object (r : Record ρ) : Codec ρ where
  encode record := .object (r.fields.map fun field => field.entry record)
  decode
    | .object entries =>
      if Json.Once r.names entries then
        ((readNamed (fun name => entries.lookup name) r.fields).map r.make).mapError Flaw.fault
      else .error .invalidValue
    | .array items => (readPlaced r.fields items).map r.make
    | _ => .error .invalidType

/-- A record written as the list of its values, and read from such a list only. -/
def tuple (r : Record ρ) : Codec ρ where
  encode record := .array (r.fields.map fun field => (field.entry record).2)
  decode
    | .array items => (readPlaced r.fields items).map r.make
    | _ => .error .invalidType

end Record

/-- The coordinates of a point as fields. -/
def Point.record : Record Point where
  fields := [.required "x" .float Point.x, .required "y" .float Point.y]
  make parts := { x := parts.1, y := parts.2.1 }
  make_values _ := rfl
  values_make _ := rfl
  distinct := by decide

/-- The library of the hosts: finite numbers are written exactly, and points as two of them. -/
def Wire.standard : Wire where
  text := .text
  symbol := .symbol
  float := .float
  int32 := .int32
  natural := .natural
  count := .count
  point := Point.record.tuple
  list := Codec.list
  variant := Codec.variant
  record := Record.object
  checked raw check lay := raw.refine (fun value => (check value).mapError .invalidGrammar) lay

end Fractal
