import Fractal.Wire.Format
import Mathlib

/-!
What the wire format relies on its libraries for.

Every law is a documented property of one way to write and read. All that is said of the format
holds over every library that keeps the laws, and the one that hosts use keeps them.
-/

namespace Fractal

/-! ### Outcomes and codecs -/

section Outcomes

variable {ε α β : Type}

/-- A function of an outcome gives a value exactly if it gives that value for the one there. -/
theorem Except.map_eq_ok_iff {f : α → β} {outcome : Except ε α} {result : β} :
    outcome.map f = .ok result ↔ ∃ value, outcome = .ok value ∧ f value = result := by
  cases outcome <;> simp [Except.map]

/-- Another wording of an error leaves the values alone. -/
theorem Except.mapError_eq_ok_iff {ζ : Type} {f : ε → ζ} {outcome : Except ε α} {value : α} :
    outcome.mapError f = .ok value ↔ outcome = .ok value := by
  cases outcome <;> simp [Except.mapError]

/-- A sequence of two outcomes gives a value exactly if the first does, and the second from it. -/
theorem Except.bind_eq_ok_iff {f : α → Except ε β} {outcome : Except ε α} {result : β} :
    (outcome >>= f) = .ok result ↔ ∃ value, outcome = .ok value ∧ f value = .ok result := by
  cases outcome with
  -- A failure is passed on, and nothing after it makes a result of it.
  | error fault => exact iff_of_false (by rintro ⟨⟩) (by rintro ⟨_, ⟨⟩, _⟩)
  | ok value =>
    change f value = .ok result ↔ _
    simp

/-- What gives no value at all gives an error. -/
theorem Except.exists_error_of_ne_ok {outcome : Except ε α} (never : ∀ value, outcome ≠ .ok value) :
    ∃ fault, outcome = .error fault := by
  cases outcome with
  | error fault => exact ⟨fault, rfl⟩
  | ok value => exact absurd rfl (never value)

/-- A value written as another is read from what that one is read from. -/
theorem Codec.decode_map_eq_ok_iff {c : Codec α} {json : Json} {pack : α → β} {unpack : β → α}
    {value : β} : (c.map pack unpack).decode json = .ok value ↔
      ∃ raw, c.decode json = .ok raw ∧ pack raw = value :=
  Except.map_eq_ok_iff

/-- Letters are read exactly from what the text of them is read from. -/
theorem Codec.decode_letters_eq_ok_iff {c : Codec String} {json : Json} {word : Word} :
    (c.map String.toList String.ofList).decode json = .ok word ↔
      c.decode json = .ok (String.ofList word) := by
  rw [decode_map_eq_ok_iff]
  constructor
  · rintro ⟨text, read, rfl⟩
    rw [String.ofList_toList]
    exact read
  · intro read
    exact ⟨_, read, String.toList_ofList⟩

end Outcomes

/-! ### Numbers -/

/-- A JSON value that spells a number, exactly or as the whole number next to it. -/
inductive Double.Spelling : Json → Float → Prop where
  /-- A number in double precision spells itself. -/
  | real (x : Float) (finite : x.isFinite = true) : Spelling (.real x finite) x
  /-- A whole number spells the number nearest to it, unless that is infinite. -/
  | whole (n : Int) (finite : (Codec.nearest n).isFinite = true) :
      Spelling (.whole n) (Codec.nearest n)

/-- What spells a number is a number itself, and spells a finite one. -/
theorem Double.Spelling.isFinite {json : Json} {x : Float} (spells : Spelling json x) :
    x.isFinite = true := by
  -- Both ways of writing a double carry the evidence.
  cases spells with
  | real _ finite => exact finite
  | whole _ finite => exact finite

/-! ### Records -/

/-- A name that does not stand twice leads to the only value that stands under it. -/
theorem Json.Once.lookup_eq_some {names : List String} {entries : List (String × Json)}
    (once : Once names entries) {name : String} (known : name ∈ names) {value : Json}
    (member : (name, value) ∈ entries) : entries.lookup name = some value := by
  -- Of being given once only this name matters, and the bound shrinks with the list.
  have bound : (entries.map Prod.fst).count name ≤ 1 := once name known
  clear once
  induction entries with
  | nil => cases member
  | cons entry rest ih =>
    rw [List.map_cons, List.count_cons] at bound
    rcases List.mem_cons.1 member with rfl | later
    -- The first entry is the one that is looked for.
    · simp
    -- The name stands among the later ones already, so that the first one is another name.
    · have again : 0 < (rest.map Prod.fst).count name :=
        List.count_pos_iff.2 (List.mem_map_of_mem later)
      have apart : (name == entry.1) = false := by
        refine beq_eq_false_iff_ne.2 fun same => ?_
        rw [if_pos (beq_iff_eq.2 same.symm)] at bound
        omega
      rw [List.lookup_cons, apart]
      exact ih later (by omega)

/-- What stands under names: the values of an object, or those of a list under declared names. -/
def Json.entries (names : List String) : Json → List (String × Json)
  | .object entries => entries
  | .array items => names.zip items
  | _ => []

section Lists

variable {names : List String} (distinct : names.Nodup) (items : List Json)

include distinct

/-- The values of a list give none of some distinct names twice. -/
theorem Json.once_zip : Once names (names.zip items) := by
  -- The zipped names are a part of the distinct ones, cut where the items end.
  have sublist : ((names.zip items).map Prod.fst).Sublist names := by
    clear distinct
    induction names generalizing items with
    | nil => simp
    | cons name rest ih =>
      cases items with
      | nil => simp
      | cons item items => exact (ih items).cons_cons name
  intro name _
  exact List.nodup_iff_count_le_one.1 (sublist.nodup distinct) name

/-- Under a name stands the value at its place, if the list is long enough. -/
theorem Json.lookup_zip {place : Nat} {name : String} (here : names[place]? = some name) :
    (names.zip items).lookup name = items[place]? := by
  cases given : items[place]? with
  -- An item at the place stands beside the name.
  | some item =>
    have member : (name, item) ∈ names.zip items :=
      List.mem_iff_getElem?.2 ⟨place, List.getElem?_zip_eq_some.2 ⟨here, given⟩⟩
    exact (once_zip distinct items).lookup_eq_some (List.mem_of_getElem? here) member
  | none =>
    refine List.lookup_eq_none_iff.2 fun entry member => bne_iff_ne.2 ?_
    rintro rfl
    -- The name stands at one place only, and that is behind the end of the list.
    obtain ⟨other, found⟩ := List.mem_iff_getElem?.1 member
    obtain ⟨there, item⟩ := List.getElem?_zip_eq_some.1 found
    have inside : place < names.length := (List.getElem?_eq_some_iff.1 here).1
    obtain rfl := (List.getElem?_inj inside distinct).1 (here.trans there.symm)
    rw [given] at item
    cases item

end Lists

namespace Record

variable {ρ α : Type}

/-- A field that must be given is read from its value. -/
theorem Field.reads_required_iff {name : String} {codec : Codec α} {get : ρ → α}
    {given : Option Json} {value : α} :
    (required name codec get).Reads given value ↔
      ∃ json, given = some json ∧ codec.decode json = .ok value := by
  cases given <;> simp [Reads]

/-- A field that may be left out has its standard value, unless another one is read. -/
theorem Field.reads_optional_iff {name : String} {codec : Codec α} {standard value : α}
    {get : ρ → α} {given : Option Json} :
    (optional name codec standard get).Reads given value ↔
      ∃ change, Option.Rel (fun json value => codec.decode json = .ok value) given change ∧
        change.getD standard = value := by
  cases given with
  -- Left out: nothing changes, and the standard is what is read.
  | none =>
    constructor
    · intro fallen
      exact ⟨none, .none, Option.some.inj fallen⟩
    · rintro ⟨_, ⟨⟩, rfl⟩
      rfl
  -- Given: what it decodes to is the change, and the standard does not matter.
  | some json =>
    constructor
    · intro read
      exact ⟨some value, .some read, rfl⟩
    · rintro ⟨_, ⟨read⟩, rfl⟩
      exact read

/-- What holds of all fields at their places holds of the first one and of those after it. -/
theorem forall_placed_cons_iff {field : Field ρ} {rest : List (Field ρ)} {items : List Json}
    {P : Field ρ → Option Json → Prop} :
    (∀ (place : Nat) (other : Field ρ), (field :: rest)[place]? = some other →
      P other items[place]?) ↔
    P field items.head? ∧ ∀ (place : Nat) (other : Field ρ), rest[place]? = some other →
      P other items.tail[place]? := by
  -- The places behind the first are those of the tail, one lower.
  have later (place : Nat) : items[place + 1]? = items.tail[place]? := by
    cases items <;> simp
  rw [List.head?_eq_getElem?]
  constructor
  · intro each
    refine ⟨each 0 field rfl, fun place other here => ?_⟩
    rw [← later]
    exact each (place + 1) other here
  · rintro ⟨first, each⟩ place other here
    cases place with
    | zero =>
      cases here
      exact first
    | succ place =>
      rw [later]
      exact each place other here

/-- Where no field may be left out, a list has to give each field a value, and nothing else. -/
theorem forall_placed_iff_forall₂ {fields : List (Field ρ)} {items : List Json} {record : ρ}
    (needed : ∀ field ∈ fields, field.fallback = none) :
    (items.length ≤ fields.length ∧ ∀ (place : Nat) (field : Field ρ),
      fields[place]? = some field → field.Reads items[place]? (field.get record)) ↔
    List.Forall₂ (fun field item => field.codec.decode item = .ok (field.get record))
      fields items := by
  induction fields generalizing items with
  | nil => cases items <;> simp
  | cons field rest ih =>
    obtain ⟨first, others⟩ := List.forall_mem_cons.1 needed
    rw [forall_placed_cons_iff (P := fun field given => field.Reads given (field.get record))]
    cases items with
    -- With nothing left in the list, the field at hand would have to fall back on something.
    | nil => simp [Field.Reads, first]
    -- Both lists lose one, and the field reads the item that stands at its place.
    | cons item items =>
      rw [List.forall₂_cons, ← ih others, and_left_comm]
      simp [Field.Reads]

end Record

/-- A JSON value that spells a record field by field. -/
inductive Record.Spelling {ρ : Type} (r : Record ρ) : Json → ρ → Prop where
  /-- The fields stand under their names, none of them twice, in any order and among any others. -/
  | named {entries : List (String × Json)} {record : ρ} (once : Json.Once r.names entries)
      (each : ∀ field ∈ r.fields, field.Reads (entries.lookup field.name) (field.get record)) :
      Spelling r (.object entries) record
  /-- The fields stand in a list, in their declared order; the list may end early. -/
  | placed {items : List Json} {record : ρ} (short : items.length ≤ r.fields.length)
      (each : ∀ (place : Nat) (field : Field ρ), r.fields[place]? = some field →
        field.Reads items[place]? (field.get record)) :
      Spelling r (.array items) record

namespace Record

variable {ρ : Type} {r : Record ρ} {record : ρ}

/-- An object spells a record if it gives no field twice, and each field what its value needs. -/
theorem spelling_object_iff {entries : List (String × Json)} :
    r.Spelling (.object entries) record ↔ Json.Once r.names entries ∧
      ∀ field ∈ r.fields, field.Reads (entries.lookup field.name) (field.get record) := by
  constructor
  · rintro ⟨once, each⟩
    exact ⟨once, each⟩
  · rintro ⟨once, each⟩
    exact .named once each

/-- A list spells a record if it is not too long, and gives each field what its value needs. -/
theorem spelling_array_iff {items : List Json} :
    r.Spelling (.array items) record ↔ items.length ≤ r.fields.length ∧
      ∀ (place : Nat) (field : Field ρ), r.fields[place]? = some field →
        field.Reads items[place]? (field.get record) := by
  constructor
  -- An array is only ever read by places.
  · rintro (_ | ⟨short, each⟩)
    exact ⟨short, each⟩
  · rintro ⟨short, each⟩
    exact .placed short each

/-- A list that is not too long spells what an object with the same values under names spells. -/
theorem spelling_array_iff_object {items : List Json} {entries : List (String × Json)}
    (short : items.length ≤ r.names.length) (once : Json.Once r.names entries)
    (gives : ∀ (place : Nat) (name : String), r.names[place]? = some name →
      entries.lookup name = items[place]?) :
    r.Spelling (.array items) record ↔ r.Spelling (.object entries) record := by
  rw [names, List.length_map] at short
  rw [spelling_array_iff, spelling_object_iff, and_iff_right short, and_iff_right once]
  -- Going through the fields by place is going through all of them.
  have named (place : Nat) (field : Field ρ) (here : r.fields[place]? = some field) :
      entries.lookup field.name = items[place]? :=
    gives place field.name (by rw [names, List.getElem?_map, here, Option.map_some])
  constructor
  -- Each field stands at some place.
  · intro each field member
    obtain ⟨place, here⟩ := List.mem_iff_getElem?.1 member
    rw [named place field here]
    exact each place field here
  -- Each place holds one of the fields.
  · intro each place field here
    rw [← named place field here]
    exact each field (List.mem_of_getElem? here)

/-- Whatever spells a record, the object of its named values spells it too. -/
theorem Spelling.entries {json : Json} (spells : r.Spelling json record) :
    r.Spelling (.object (json.entries r.names)) record := by
  cases json with
  -- An object has its own entries, and a list those that it gives to the names.
  | object entries => exact spells
  | array items =>
    refine (spelling_array_iff_object ?_ (Json.once_zip r.distinct items) fun place name =>
      Json.lookup_zip r.distinct items).1 spells
    rw [names, List.length_map]
    exact (spelling_array_iff.1 spells).1
  | _ => cases spells

end Record

/-! ### Laws of the libraries -/

namespace Wire

/-- A wire whose libraries write and read as they document it. -/
structure Lawful (w : Wire) : Prop where
  /-- A text is written as it is. -/
  encode_text (text : String) : w.text.encode text = .text text
  /-- A text is read from itself. -/
  decode_text {json : Json} {text : String} : w.text.decode json = .ok text ↔ json = .text text
  /-- A symbol is written as the text of that symbol alone. -/
  encode_symbol (symbol : Char) : w.symbol.encode symbol = .text (String.ofList [symbol])
  /-- A symbol is read from the text of that symbol alone. -/
  decode_symbol {json : Json} {symbol : Char} :
    w.symbol.decode json = .ok symbol ↔ json = .text (String.ofList [symbol])
  /-- A finite number is carried as it is. -/
  encode_finite (x : Float) (finite : x.isFinite = true) : w.float.encode x = .real x finite
  /-- A number that is not finite is written as null. -/
  encode_other (x : Float) (other : x.isFinite = false) : w.float.encode x = .null
  /-- A number is read from what spells it. -/
  decode_float {json : Json} {x : Float} : w.float.decode json = .ok x ↔ Double.Spelling json x
  /-- A signed number of 32 bits is written as a whole number. -/
  encode_int32 (n : Int32) : w.int32.encode n = .whole n.toInt
  /-- A signed number of 32 bits is read from the whole number that it stands for. -/
  decode_int32 {json : Json} {n : Int32} : w.int32.decode json = .ok n ↔ json = .whole n.toInt
  /-- A natural number is written as a whole number. -/
  encode_natural (n : Nat) : w.natural.encode n = .whole n
  /-- A natural number is read from the whole number that it is, if 64 bits hold it. -/
  decode_natural {json : Json} {n : Nat} :
    w.natural.decode json = .ok n ↔ json = .whole n ∧ n ≤ Count.top
  /-- A count is written as a whole number. -/
  encode_count (n : Count) : w.count.encode n = .whole n.toNat
  /-- A count is read from the whole number that it stands for. -/
  decode_count {json : Json} {n : Count} : w.count.decode json = .ok n ↔ json = .whole n.toNat
  /-- A point is written as a list of two numbers. -/
  encode_point (p : Point) : w.point.encode p = .array [w.float.encode p.x, w.float.encode p.y]
  /-- A point is read from a list of two numbers. -/
  decode_point {json : Json} {p : Point} : w.point.decode json = .ok p ↔
    ∃ across up, json = .array [across, up] ∧ w.float.decode across = .ok p.x ∧
      w.float.decode up = .ok p.y
  /-- The values of a list are written one after the other. -/
  encode_list {α : Type} (item : Codec α) (values : List α) :
    (w.list item).encode values = .array (values.map item.encode)
  /-- A list is read from the list of what its values are read from. -/
  decode_list {α : Type} {item : Codec α} {json : Json} {values : List α} :
    (w.list item).decode json = .ok values ↔ ∃ items, json = .array items ∧
      List.Forall₂ (fun json value => item.decode json = .ok value) items values
  /-- One of finitely many values is written as its name. -/
  encode_variant {α : Type} (all : List α) (name : α → String) (value : α) :
    (w.variant all name).encode value = .text (name value)
  /-- One of finitely many values is read from its name, if no other one has that name. -/
  decode_variant {α : Type} {all : List α} {name : α → String} (distinct : (all.map name).Nodup)
    {text : String} {value : α} :
    (w.variant all name).decode (.text text) = .ok value ↔ value ∈ all ∧ name value = text
  /-- A record is written as an object of its fields, in their declared order. -/
  encode_record {ρ : Type} (r : Record ρ) (record : ρ) :
    (w.record r).encode record = .object (r.fields.map fun field => field.entry record)
  /-- A record is read from what spells it. -/
  decode_record {ρ : Type} {r : Record ρ} {json : Json} {record : ρ} :
    (w.record r).decode json = .ok record ↔ r.Spelling json record
  /-- A checked value is written as the raw one that it is laid out as. -/
  encode_checked {α β : Type} (raw : Codec α) (check : α → Except GrammarFault β) (lay : β → α)
    (value : β) : (w.checked raw check lay).encode value = raw.encode (lay value)
  /-- A checked value is read as a raw one, and a refusal by the check is passed on. -/
  decode_checked {α β : Type} (raw : Codec α) (check : α → Except GrammarFault β) (lay : β → α)
    (json : Json) : (w.checked raw check lay).decode json =
      raw.decode json >>= fun value => (check value).mapError .invalidGrammar

/-- A word is read from the text of its symbols. -/
theorem Lawful.decode_word {w : Wire} (lawful : w.Lawful) {json : Json} {word : Word} :
    w.word.decode json = .ok word ↔ json = .text (String.ofList word) := by
  rw [Wire.word, Codec.decode_letters_eq_ok_iff, lawful.decode_text]

end Wire

end Fractal
