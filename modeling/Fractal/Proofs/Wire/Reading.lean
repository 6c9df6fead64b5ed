import Fractal.Proofs.Names
import Fractal.Proofs.Wire.Laws

/-!
What the library of the hosts reads from a JSON value.

For every way to build a codec, one law says exactly from which JSON values a given value is read,
so that no reader has to be opened again. Main statement: that library keeps the laws that the wire
format relies on.
-/

namespace Fractal

variable {ε α β : Type}

namespace Codec

variable {c : Codec α} {json : Json}

/-- A refined value is read exactly when the value that it is written as is read and accepted. -/
theorem decode_refine_eq_ok_iff {pack : α → Except DecodeFault β} {unpack : β → α} {value : β} :
    (c.refine pack unpack).decode json = .ok value ↔
      ∃ raw, c.decode json = .ok raw ∧ pack raw = .ok value :=
  Except.bind_eq_ok_iff

/-- A text is read from itself. -/
theorem decode_text_eq_ok_iff {value : String} :
    text.decode json = .ok value ↔ json = .text value := by
  cases json <;> simp [text]

/-- A word is read from the text of its symbols. -/
theorem decode_word_eq_ok_iff {word : Word} :
    Codec.word.decode json = .ok word ↔ json = .text (String.ofList word) := by
  rw [Codec.word, decode_letters_eq_ok_iff, decode_text_eq_ok_iff]

/-- A symbol is read from the text of that symbol alone. -/
theorem decode_symbol_eq_ok_iff {symbol : Char} :
    Codec.symbol.decode json = .ok symbol ↔ json = .text (String.ofList [symbol]) := by
  rw [Codec.symbol, decode_refine_eq_ok_iff]
  simp only [decode_word_eq_ok_iff]
  constructor
  · rintro ⟨word, rfl, alone⟩
    -- Only a word of one symbol is a symbol.
    split at alone
    · cases alone
      rfl
    · cases alone
  · rintro rfl
    exact ⟨_, rfl, rfl⟩

/-- A number is read from what spells it. -/
theorem decode_float_eq_ok_iff {x : Float} :
    float.decode json = .ok x ↔ Double.Spelling json x := by
  cases json with
  -- A real literal stands for a finite double, which is the one that is read.
  | real value finite =>
    constructor
    · rintro ⟨⟩
      exact .real _ finite
    · rintro ⟨⟩
      rfl
  -- A whole number is rounded, and refused if it is rounded to infinity.
  | whole n =>
    by_cases fits : (nearest n).isFinite = true
    · simp only [float, if_pos fits, Except.ok.injEq]
      constructor
      · rintro rfl
        exact .whole n fits
      · rintro ⟨⟩
        rfl
    · simp only [float, if_neg fits]
      refine iff_of_false (by rintro ⟨⟩) fun spells => fits ?_
      cases spells
      assumption
  -- Everything else is no number.
  | _ => exact iff_of_false (by rintro ⟨⟩) (by rintro ⟨⟩)

/-- A whole number is read from itself, if it lies between the ends. -/
theorem decode_whole_eq_ok_iff {low high n : Int} :
    (whole low high).decode json = .ok n ↔ json = .whole n ∧ low ≤ n ∧ n ≤ high := by
  cases json with
  | whole m =>
    by_cases inside : low ≤ m ∧ m ≤ high
    -- Within the bounds the number is read as it stands.
    · simp only [whole, if_pos inside, Except.ok.injEq, Json.whole.injEq]
      exact ⟨fun same => ⟨same, same ▸ inside⟩, fun read => read.1⟩
    -- Outside it is refused, with a fault that tells how far outside it lies.
    · simp only [whole, if_neg inside, Json.whole.injEq]
      refine iff_of_false ?_ fun read => inside (read.1 ▸ read.2)
      split <;> rintro ⟨⟩
  | _ => simp [whole]

/-- A signed number of 32 bits is read from the whole number that it stands for. -/
theorem decode_int32_eq_ok_iff {n : Int32} :
    int32.decode json = .ok n ↔ json = .whole n.toInt := by
  rw [int32, decode_map_eq_ok_iff]
  simp only [decode_whole_eq_ok_iff]
  constructor
  -- The bounds are those of the type, so that nothing wraps around.
  · rintro ⟨m, ⟨rfl, low, high⟩, rfl⟩
    rw [Int32.toInt_ofInt_of_le low (Int.lt_add_one_iff.2 high)]
  · rintro rfl
    exact ⟨_, ⟨rfl, n.minValue_le_toInt, n.toInt_le⟩, n.ofInt_toInt⟩

/-- A natural number is read from itself, if it has at most 64 bits. -/
theorem decode_natural_eq_ok_iff {n : Nat} :
    natural.decode json = .ok n ↔ json = .whole n ∧ n ≤ Count.top := by
  rw [natural, decode_map_eq_ok_iff]
  simp only [decode_whole_eq_ok_iff]
  constructor
  -- A number that is not negative is its own natural number.
  · rintro ⟨m, ⟨rfl, low, high⟩, rfl⟩
    exact ⟨by rw [Int.toNat_of_nonneg low], by omega⟩
  · rintro ⟨rfl, fits⟩
    exact ⟨n, ⟨rfl, by omega, by omega⟩, Int.toNat_natCast n⟩

/-- A count is read from the whole number that it stands for. -/
theorem decode_count_eq_ok_iff {n : Count} :
    count.decode json = .ok n ↔ json = .whole n.toNat := by
  rw [count, decode_map_eq_ok_iff]
  simp only [decode_natural_eq_ok_iff]
  constructor
  -- A number up to the top is not clamped.
  · rintro ⟨m, ⟨rfl, fits⟩, rfl⟩
    rw [Count.toNat_clamp, Nat.min_eq_left fits]
  · rintro rfl
    exact ⟨n.toNat, ⟨rfl, n.toNat_le_top⟩, n.clamp_toNat⟩

/-- A list is read from the list of what its values are read from. -/
theorem decode_list_eq_ok_iff {values : List α} :
    c.list.decode json = .ok values ↔
      ∃ items, json = .array items ∧
        List.Forall₂ (fun item value => c.decode item = .ok value) items values := by
  cases json with
  | array items =>
    change items.mapM c.decode = .ok values ↔ _
    simp only [Json.array.injEq, exists_eq_left']
    -- The items are read from the front, and the first that fails ends the reading.
    induction items generalizing values with
    -- No items are read as no values, and as nothing else.
    | nil =>
      rw [List.mapM_nil, List.forall₂_nil_left_iff]
      exact ⟨fun read => by cases read; rfl, fun none => by rw [none]; rfl⟩
    -- There is a result if the first item has one and the rest have theirs.
    | cons item rest ih =>
      rw [List.mapM_cons, Except.bind_eq_ok_iff, List.forall₂_cons_left_iff]
      simp only [Except.bind_eq_ok_iff, ih]
      constructor
      · rintro ⟨value, first, others, later, ⟨⟩⟩
        exact ⟨value, others, first, later, rfl⟩
      · rintro ⟨value, others, first, later, rfl⟩
        exact ⟨value, first, others, later, rfl⟩
  -- What is no array has no items to read.
  | _ => simp [list]

/-- One of finitely many values is read from its name, if it is listed and the names differ. -/
theorem decode_variant_eq_ok_iff {all : List α} {name : α → String}
    (distinct : (all.map name).Nodup) {wanted : String} {value : α} :
    (variant all name).decode (.text wanted) = .ok value ↔ value ∈ all ∧ name value = wanted := by
  -- The name is looked up in the list, where it stands for one value at most.
  rw [← find?_name_eq_some_iff distinct]
  simp only [variant]
  cases all.find? fun other => name other == wanted with
  | none => exact iff_of_false (by rintro ⟨⟩) (by rintro ⟨⟩)
  | some first => rw [Except.ok.injEq, Option.some.injEq]

end Codec

namespace Record

variable {ρ : Type}

/-- What is read for a field does not depend on how a refusal or a missing field is reported. -/
theorem Field.read_eq_ok_iff {field : Field ρ} {given : Option Json} {refused : DecodeFault → ε}
    {missing : ε} {value : field.Value} :
    field.read given refused missing = .ok value ↔ field.Reads given value := by
  cases given with
  -- What is given has to decode, whether there is a standard or not.
  | some json => simp [Field.read, Field.Reads, Except.mapError_eq_ok_iff]
  -- What is left out is the standard, if there is one.
  | none => cases fallen : field.fallback <;> simp [Field.read, Field.Reads, fallen]

/-- The values in the fields of a record are read by name exactly if each of them is. -/
theorem readNamed_eq_ok_iff {given : String → Option Json} {fields : List (Field ρ)} {record : ρ} :
    readNamed given fields = .ok (values fields record) ↔
      ∀ field ∈ fields, field.Reads (given field.name) (field.get record) := by
  induction fields with
  | nil => simp [readNamed, values]
  | cons field rest ih =>
    rw [List.forall_mem_cons, ← ih, ← Field.read_eq_ok_iff, readNamed, values]
    -- Both parts are read in any case, and the first flaw of the two is told.
    cases field.read (given field.name) (Flaw.refused field.name) (Flaw.missing field.name) with
    | error flaw =>
      cases readNamed given rest <;> exact iff_of_false (by rintro ⟨⟩) (by rintro ⟨⟨⟩, _⟩)
    | ok value =>
      cases readNamed given rest with
      | error flaw => exact iff_of_false (by rintro ⟨⟩) (by rintro ⟨_, ⟨⟩⟩)
      -- Only where both parts are read, there is a pair of values to compare.
      | ok others =>
        constructor
        · intro same
          obtain ⟨first, later⟩ := Prod.mk.inj (Except.ok.inj same)
          exact ⟨congrArg _ first, congrArg _ later⟩
        · rintro ⟨⟨⟩, ⟨⟩⟩
          rfl

/-- The values in the fields of a record are read by place exactly if each of them is. -/
theorem readPlaced_eq_ok_iff {fields : List (Field ρ)} {items : List Json} {record : ρ} :
    readPlaced fields items = .ok (values fields record) ↔
      items.length ≤ fields.length ∧ ∀ (place : Nat) (field : Field ρ),
        fields[place]? = some field → field.Reads items[place]? (field.get record) := by
  induction fields generalizing items with
  | nil => cases items <;> simp [readPlaced, values]
  | cons field rest ih =>
    -- A list that is too long for all fields is too long for the rest after one item.
    have short : items.length ≤ (field :: rest).length ↔ items.tail.length ≤ rest.length := by
      rw [List.length_tail, List.length_cons]
      omega
    change (field.read items.head? id .invalidLength >>= fun value =>
      readPlaced rest items.tail >>= fun others => .ok (value, others)) =
        Except.ok (field.get record, values rest record) ↔ _
    rw [short, forall_placed_cons_iff
      (P := fun field given => field.Reads given (field.get record)), and_left_comm, ← ih]
    -- The field at hand takes the head of the list, and the rest its tail.
    simp only [Except.bind_eq_ok_iff, Field.read_eq_ok_iff]
    constructor
    · rintro ⟨value, first, others, later, ⟨⟩⟩
      exact ⟨first, later⟩
    · rintro ⟨first, later⟩
      exact ⟨_, first, _, later, rfl⟩

/-- A record is made of parts exactly if these are the values in its fields. -/
theorem map_make_eq_ok_iff {r : Record ρ} {outcome : Except ε (Values r.fields)} {record : ρ} :
    outcome.map r.make = .ok record ↔ outcome = .ok (values r.fields record) := by
  rw [Except.map_eq_ok_iff]
  constructor
  -- Making a record and taking it apart are inverse to each other.
  · rintro ⟨parts, read, rfl⟩
    rw [r.values_make, read]
  · intro read
    exact ⟨_, read, r.make_values record⟩

/-- A record is read from a list by place, whether it is written as an object or as a list. -/
theorem map_readPlaced_eq_ok_iff {r : Record ρ} {items : List Json} {record : ρ} :
    (readPlaced r.fields items).map r.make = .ok record ↔ r.Spelling (.array items) record := by
  rw [map_make_eq_ok_iff, readPlaced_eq_ok_iff, spelling_array_iff]

/-- A record is read from what spells it. -/
theorem decode_object_eq_ok_iff {r : Record ρ} {json : Json} {record : ρ} :
    r.object.decode json = .ok record ↔ r.Spelling json record := by
  cases json with
  | object entries =>
    by_cases once : Json.Once r.names entries
    · simp only [object, if_pos once]
      rw [Except.mapError_eq_ok_iff, map_make_eq_ok_iff, readNamed_eq_ok_iff, spelling_object_iff,
        and_iff_right once]
    -- An object that gives a field twice is refused, and spells nothing.
    · simp only [object, if_neg once]
      exact iff_of_false (by rintro ⟨⟩) fun spells => once (spelling_object_iff.1 spells).1
  -- A list is read by places, and anything else not at all.
  | array items => exact map_readPlaced_eq_ok_iff
  | _ => exact iff_of_false (by rintro ⟨⟩) (by rintro ⟨⟩)

end Record

/-- A point is read from the list of its two coordinates. -/
theorem Point.decode_tuple_eq_ok_iff {json : Json} {p : Point} :
    record.tuple.decode json = .ok p ↔
      ∃ across up, json = .array [across, up] ∧ Codec.float.decode across = .ok p.x ∧
        Codec.float.decode up = .ok p.y := by
  cases json with
  | array items =>
    change (Record.readPlaced record.fields items).map record.make = .ok p ↔ _
    rw [Record.map_readPlaced_eq_ok_iff, Record.spelling_array_iff,
      Record.forall_placed_iff_forall₂ (by simp [record])]
    -- Neither coordinate may be left out, so there are exactly two items.
    constructor
    · rintro (_ | ⟨x, _ | ⟨y, ⟨⟩⟩⟩)
      exact ⟨_, _, rfl, x, y⟩
    · rintro ⟨across, up, ⟨⟩, x, y⟩
      exact .cons x (.cons y .nil)
  | _ => exact iff_of_false (by rintro ⟨⟩) (by rintro ⟨_, _, ⟨⟩, _⟩)

/-- The library of the hosts keeps every law that the wire format relies on. -/
theorem Wire.lawful_standard : standard.Lawful where
  encode_text _ := rfl
  decode_text := Codec.decode_text_eq_ok_iff
  encode_symbol _ := rfl
  decode_symbol := Codec.decode_symbol_eq_ok_iff
  encode_finite x finite := by simp [standard, Codec.float, finite]
  encode_other x other := by simp [standard, Codec.float, other]
  decode_float := Codec.decode_float_eq_ok_iff
  encode_int32 _ := rfl
  decode_int32 := Codec.decode_int32_eq_ok_iff
  encode_natural _ := rfl
  decode_natural := Codec.decode_natural_eq_ok_iff
  encode_count _ := rfl
  decode_count := Codec.decode_count_eq_ok_iff
  encode_point _ := rfl
  decode_point := Point.decode_tuple_eq_ok_iff
  encode_list _ _ := rfl
  decode_list := Codec.decode_list_eq_ok_iff
  encode_variant _ _ _ := rfl
  decode_variant distinct := Codec.decode_variant_eq_ok_iff distinct
  encode_record _ _ := rfl
  decode_record := Record.decode_object_eq_ok_iff
  encode_checked _ _ _ _ := rfl
  decode_checked _ _ _ _ := rfl

end Fractal
