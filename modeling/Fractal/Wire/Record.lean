import Fractal.Wire.Codec

/-!
Records: values with named fields.

A record is only described here: by its fields in their declared order, and by how it is made of a
value for each of them. How it is written and read is up to a wire format.
-/

namespace Fractal

/-- One field of the records of a type. -/
structure Record.Field (ρ : Type) where
  /-- The name under which the field is written. -/
  name : String
  /-- The values of the field. -/
  Value : Type
  /-- How these values are written and read. -/
  codec : Codec Value
  /-- The value of a field that is not given, if it may be left out. -/
  fallback : Option Value
  /-- The value of the field in a record. -/
  get : ρ → Value

namespace Record

variable {ρ α : Type}

namespace Field

/-- A field that must be given. -/
abbrev required (name : String) (codec : Codec α) (get : ρ → α) : Field ρ :=
  { name, Value := α, codec, fallback := none, get }

/-- A field that has a standard value when it is not given. -/
abbrev optional (name : String) (codec : Codec α) (standard : α) (get : ρ → α) : Field ρ :=
  { name, Value := α, codec, fallback := some standard, get }

/-- The field as it is written, under its name. -/
def entry (field : Field ρ) (record : ρ) : String × Json :=
  (field.name, field.codec.encode (field.get record))

/-- A value is read from what is given for the field, or stands for nothing that is given. -/
def Reads (field : Field ρ) (given : Option Json) (value : field.Value) : Prop :=
  given.elim (field.fallback = some value) fun json => field.codec.decode json = .ok value

end Field

/-- A value for each of some fields. -/
def Values : List (Field ρ) → Type
  | [] => Unit
  | field :: rest => field.Value × Values rest

/-- The values of some fields in a record. -/
def values : (fields : List (Field ρ)) → ρ → Values fields
  | [], _ => ()
  | field :: rest, record => (field.get record, values rest record)

end Record

/-- The fields that make up the records of a type. -/
structure Record (ρ : Type) where
  /-- The fields, in their declared order. -/
  fields : List (Record.Field ρ)
  /-- The record with given values in its fields. -/
  make : Record.Values fields → ρ
  /-- A record is made of the values in its fields. -/
  make_values (record : ρ) : make (Record.values fields record) = record
  /-- The values in the fields of a record are those that it was made of. -/
  values_make (parts : Record.Values fields) : Record.values fields (make parts) = parts
  /-- No two fields have the same name. -/
  distinct : (fields.map Record.Field.name).Nodup

namespace Record

variable {ρ : Type}

/-- The names of the fields, in their declared order. -/
def names (r : Record ρ) : List String := r.fields.map Field.name

/-- Records with the same values in some fields have the same values there all at once. -/
theorem values_congr {fields : List (Field ρ)} {a b : ρ}
    (same : ∀ field ∈ fields, field.get a = field.get b) : values fields a = values fields b := by
  induction fields with
  | nil => rfl
  | cons field rest ih =>
    obtain ⟨first, others⟩ := List.forall_mem_cons.1 same
    exact Prod.ext first (ih others)

/-- Records with the same value in every field are the same. -/
theorem ext_fields (r : Record ρ) {a b : ρ} (same : ∀ field ∈ r.fields, field.get a = field.get b) :
    a = b := by
  rw [← r.make_values a, ← r.make_values b, values_congr same]

end Record

/-- None of some names stands more than once among named values. -/
def Json.Once (names : List String) (entries : List (String × Json)) : Prop :=
  ∀ name ∈ names, (entries.map Prod.fst).count name ≤ 1

/-- Whether names are repeated is decided name by name. -/
instance (names : List String) (entries : List (String × Json)) :
    Decidable (Json.Once names entries) :=
  inferInstanceAs (Decidable (∀ name ∈ names, (entries.map Prod.fst).count name ≤ 1))

end Fractal
