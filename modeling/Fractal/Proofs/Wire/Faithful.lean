import Fractal.Proofs.Wire.Laws

/-!
Codecs that read what they write, and nothing that they could not write.

A faithful codec never takes what it wrote for another value, and can write again whatever it reads.
Every way to build a codec keeps it faithful, so that only the plain kinds of values have to be
looked at one by one. Which values are read back is told apart from that, part by part.
-/

namespace Fractal

variable {α β ρ : Type}

/-- A value is read back from what is written for it. -/
def Codec.ReadsBack (c : Codec α) (value : α) : Prop :=
  c.decode (c.encode value) = .ok value

/-- A codec that mistakes no value for another, and reads only what it can write and read again. -/
structure Codec.Faithful (c : Codec α) : Prop where
  /-- What was written for a value is read as no other one. -/
  eq_of_decode_encode {value found : α} : c.decode (c.encode value) = .ok found → found = value
  /-- Whatever is read is read back. -/
  readsBack {json : Json} {value : α} : c.decode json = .ok value → c.ReadsBack value

/-- A codec is faithful if a value is only read from what is written for it, and for no other. -/
theorem Codec.Faithful.of_injective {c : Codec α} {write : α → Json}
    (injective : Function.Injective write) (encode : ∀ value, c.encode value = write value)
    (only : ∀ {json value}, c.decode json = .ok value → json = write value) : c.Faithful where
  eq_of_decode_encode := by
    intro value found read
    -- What is found is written alike, and then it is the same.
    exact (injective ((encode value).symm.trans (only read))).symm
  readsBack := by
    intro json value read
    -- Only its own text is read as the value, which is the text that is written.
    obtain rfl := only read
    rwa [ReadsBack, encode]

/-- A field that is read faithfully, and whose standard value can be written and read again. -/
structure Record.Field.Faithful (field : Field ρ) : Prop where
  /-- The values of the field are read faithfully. -/
  codec : field.codec.Faithful
  /-- What stands for a field that is not given is read back. -/
  fallback : ∀ value ∈ field.fallback, field.codec.ReadsBack value

namespace Record.Field.Faithful

/-- A field that must be given is faithful if its values are. -/
theorem required {name : String} {c : Codec α} {get : ρ → α} (faithful : c.Faithful) :
    (Field.required name c get).Faithful where
  codec := faithful
  fallback := by rintro _ ⟨⟩

/-- A field that may be left out is faithful if its values are, and its standard is read back. -/
theorem optional {name : String} {c : Codec α} {standard : α} {get : ρ → α}
    (faithful : c.Faithful) (back : c.ReadsBack standard) :
    (Field.optional name c standard get).Faithful where
  codec := faithful
  fallback := by
    rintro _ ⟨⟩
    exact back

/-- A value that stands in a faithful field is read back, whether it was given or not. -/
theorem readsBack {field : Field ρ} (faithful : field.Faithful) {given : Option Json}
    {value : field.Value} (reads : field.Reads given value) : field.codec.ReadsBack value := by
  cases given with
  -- A value that was left out is the standard, which is read back by assumption.
  | none => exact faithful.fallback value reads
  | some json => exact faithful.codec.readsBack reads

end Record.Field.Faithful

/-- An object that a record is written as gives no field twice. -/
theorem Record.once_entries (r : Record ρ) (record : ρ) :
    Json.Once r.names (r.fields.map fun field => field.entry record) := by
  -- A record is written with the names of its fields, and these are distinct.
  have names : (r.fields.map fun field => field.entry record).map Prod.fst = r.names :=
    List.map_map
  intro name _
  rw [names]
  exact List.nodup_iff_count_le_one.1 r.distinct name

/-- Each field of a record is found under its name where all of them are written. -/
theorem Record.lookup_entries (r : Record ρ) (record : ρ) {field : Field ρ}
    (member : field ∈ r.fields) :
    (r.fields.map fun other => other.entry record).lookup field.name =
      some (field.codec.encode (field.get record)) :=
  (r.once_entries record).lookup_eq_some (List.mem_map_of_mem member) (List.mem_map_of_mem member)

namespace Wire.Lawful

variable {w : Wire} (lawful : w.Lawful)

include lawful

/-! ### Plain values -/

/-- Every text is read back. -/
theorem readsBack_text (text : String) : w.text.ReadsBack text :=
  lawful.decode_text.2 (lawful.encode_text text)

/-- Texts are read faithfully. -/
theorem faithful_text : w.text.Faithful :=
  .of_injective (fun _ _ same => Json.text.inj same)
    lawful.encode_text lawful.decode_text.1

/-- A word is written as the text of its symbols. -/
theorem encode_word (word : Word) : w.word.encode word = .text (String.ofList word) :=
  lawful.encode_text _

/-- Every word is read back. -/
theorem readsBack_word (word : Word) : w.word.ReadsBack word :=
  lawful.decode_word.2 (lawful.encode_word word)

/-- Words are read faithfully. -/
theorem faithful_word : w.word.Faithful :=
  .of_injective (fun _ _ same => String.ofList_injective (Json.text.inj same))
    lawful.encode_word lawful.decode_word.1

/-- Every symbol is read back. -/
theorem readsBack_symbol (symbol : Char) : w.symbol.ReadsBack symbol :=
  lawful.decode_symbol.2 (lawful.encode_symbol symbol)

/-- Symbols are read faithfully. -/
theorem faithful_symbol : w.symbol.Faithful :=
  .of_injective
    (fun _ _ same => List.singleton_injective (String.ofList_injective (Json.text.inj same)))
    lawful.encode_symbol lawful.decode_symbol.1

/-- Every signed number of 32 bits is read back. -/
theorem readsBack_int32 (n : Int32) : w.int32.ReadsBack n :=
  lawful.decode_int32.2 (lawful.encode_int32 n)

/-- Signed numbers of 32 bits are read faithfully. -/
theorem faithful_int32 : w.int32.Faithful :=
  .of_injective (fun _ _ same => Int32.toInt_inj.1 (Json.whole.inj same))
    lawful.encode_int32 lawful.decode_int32.1

/-- Exactly the natural numbers of at most 64 bits are read back. -/
theorem readsBack_natural_iff {n : Nat} : w.natural.ReadsBack n ↔ n ≤ Count.top := by
  rw [Codec.ReadsBack, lawful.decode_natural, lawful.encode_natural]
  simp

/-- Natural numbers are read faithfully. -/
theorem faithful_natural : w.natural.Faithful :=
  .of_injective (fun _ _ same => Int.ofNat_inj.1 (Json.whole.inj same))
    lawful.encode_natural fun read => (lawful.decode_natural.1 read).1

/-- Every count is read back. -/
theorem readsBack_count (n : Count) : w.count.ReadsBack n :=
  lawful.decode_count.2 (lawful.encode_count n)

/-- Counts are read faithfully. -/
theorem faithful_count : w.count.Faithful :=
  .of_injective (fun _ _ same => Count.ext (Int.ofNat_inj.1 (Json.whole.inj same)))
    lawful.encode_count lawful.decode_count.1

/-- Exactly the finite numbers are read back, since all others are written as null. -/
theorem readsBack_float_iff {x : Float} : w.float.ReadsBack x ↔ x.isFinite = true := by
  rw [Codec.ReadsBack, lawful.decode_float]
  constructor
  -- Whatever is read is finite.
  · exact Double.Spelling.isFinite
  -- A finite number is written as itself.
  · intro finite
    rw [lawful.encode_finite x finite]
    exact .real x finite

/-- Numbers are read faithfully. -/
theorem faithful_float : w.float.Faithful where
  eq_of_decode_encode := by
    intro value found read
    rw [lawful.decode_float] at read
    cases finite : value.isFinite with
    -- A finite number is written exactly, and any other as null, which spells no number.
    | true =>
      rw [lawful.encode_finite value finite] at read
      cases read
      rfl
    | false =>
      rw [lawful.encode_other value finite] at read
      cases read
  readsBack read := lawful.readsBack_float_iff.2 (lawful.decode_float.1 read).isFinite

/-! ### Values made of others -/

/-- A point is read back exactly if both coordinates are. -/
theorem readsBack_point_iff {p : Point} :
    w.point.ReadsBack p ↔ w.float.ReadsBack p.x ∧ w.float.ReadsBack p.y := by
  rw [Codec.ReadsBack, lawful.decode_point, lawful.encode_point]
  constructor
  · rintro ⟨_, _, ⟨⟩, x, y⟩
    exact ⟨x, y⟩
  · rintro ⟨x, y⟩
    exact ⟨_, _, rfl, x, y⟩

/-- Points are read faithfully. -/
theorem faithful_point : w.point.Faithful where
  eq_of_decode_encode := by
    intro value found read
    rw [lawful.decode_point, lawful.encode_point] at read
    obtain ⟨_, _, ⟨⟩, x, y⟩ := read
    -- A point is read back coordinate by coordinate.
    have across := lawful.faithful_float.eq_of_decode_encode x
    have up := lawful.faithful_float.eq_of_decode_encode y
    cases found; cases value; cases across; cases up
    rfl
  readsBack := by
    intro json value read
    obtain ⟨_, _, -, x, y⟩ := lawful.decode_point.1 read
    exact lawful.readsBack_point_iff.2
      ⟨lawful.faithful_float.readsBack x, lawful.faithful_float.readsBack y⟩

/-- A list is read back exactly if all its values are. -/
theorem readsBack_list_iff {c : Codec α} {values : List α} :
    (w.list c).ReadsBack values ↔ ∀ value ∈ values, c.ReadsBack value := by
  rw [Codec.ReadsBack, lawful.decode_list, lawful.encode_list]
  simp only [Json.array.injEq, exists_eq_left', List.forall₂_map_left_iff, List.forall₂_same,
    Codec.ReadsBack]

/-- A list of values that are read faithfully is read faithfully. -/
theorem faithful_list {c : Codec α} (faithful : c.Faithful) : (w.list c).Faithful where
  eq_of_decode_encode := by
    intro values found read
    rw [lawful.decode_list, lawful.encode_list] at read
    simp only [Json.array.injEq, exists_eq_left', List.forall₂_map_left_iff] at read
    -- Item by item, what was written for a value is read as this value.
    have same := read.imp fun _ _ back => (faithful.eq_of_decode_encode back).symm
    exact (List.forall₂_eq_eq_eq ▸ same).symm
  readsBack := by
    intro json values read
    obtain ⟨items, -, each⟩ := lawful.decode_list.1 read
    rw [lawful.readsBack_list_iff]
    clear read
    -- Each value was read from an item, and so is read back from its own.
    induction each with
    | nil => simp
    | cons first _ ih => exact List.forall_mem_cons.2 ⟨faithful.readsBack first, ih⟩

section Variants

variable {all : List α} {name : α → String}

/-- If all values are listed and have names of their own, every one of them is read back. -/
theorem readsBack_variant (complete : ∀ value, value ∈ all) (distinct : (all.map name).Nodup)
    (value : α) : (w.variant all name).ReadsBack value := by
  rw [Codec.ReadsBack, lawful.encode_variant, lawful.decode_variant distinct]
  exact ⟨complete value, rfl⟩

/-- If all values are listed and have names of their own, they are read faithfully. -/
theorem faithful_variant (complete : ∀ value, value ∈ all) (distinct : (all.map name).Nodup) :
    (w.variant all name).Faithful where
  eq_of_decode_encode := by
    intro value found read
    -- The name that is written belongs to one value only.
    rw [lawful.encode_variant, lawful.decode_variant distinct] at read
    exact List.inj_on_of_nodup_map distinct read.1 (complete value) read.2
  readsBack _ := lawful.readsBack_variant complete distinct _

end Variants

section Records

variable {r : Record ρ}

/-- An object that was written for one record spells another field by field, or not at all. -/
theorem decode_encode_record_iff {record found : ρ} :
    (w.record r).decode ((w.record r).encode record) = .ok found ↔
      ∀ field ∈ r.fields,
        field.codec.decode (field.codec.encode (field.get record)) = .ok (field.get found) := by
  rw [lawful.decode_record, lawful.encode_record, Record.spelling_object_iff,
    and_iff_right (r.once_entries record)]
  -- Under the name of each field stands what was written for it.
  refine forall₂_congr fun field member => ?_
  rw [r.lookup_entries record member]
  rfl

/-- A record is read back exactly if all its fields are. -/
theorem readsBack_record_iff {record : ρ} :
    (w.record r).ReadsBack record ↔ ∀ field ∈ r.fields, field.codec.ReadsBack (field.get record) :=
  lawful.decode_encode_record_iff

/-- A record of faithful fields is read faithfully. -/
theorem faithful_record (faithful : ∀ field ∈ r.fields, field.Faithful) :
    (w.record r).Faithful where
  eq_of_decode_encode := by
    intro record found read
    -- A record is known by its fields.
    refine r.ext_fields fun field member => ?_
    have back := lawful.decode_encode_record_iff.1 read field member
    exact (faithful field member).codec.eq_of_decode_encode back
  readsBack := by
    intro json record read
    refine lawful.readsBack_record_iff.2 fun field member => ?_
    -- Given by name or by place, each field was read from something or fell back.
    cases lawful.decode_record.1 read with
    | named _ each => exact (faithful field member).readsBack (each field member)
    | placed _ each =>
      obtain ⟨place, here⟩ := List.mem_iff_getElem?.1 member
      exact (faithful field member).readsBack (each place field here)

end Records

section Checks

variable {raw : Codec α} {check : α → Except GrammarFault β} {lay : β → α}

/-- A checked value is read from what some raw value is read from that passes the check. -/
theorem decode_checked_eq_ok_iff {json : Json} {value : β} :
    (w.checked raw check lay).decode json = .ok value ↔
      ∃ parts, raw.decode json = .ok parts ∧ check parts = .ok value := by
  simp only [lawful.decode_checked, Except.bind_eq_ok_iff, Except.mapError_eq_ok_iff]

variable (inverse : ∀ {parts value}, check parts = .ok value ↔ parts = lay value)

include inverse

/-- A checked value is read back exactly if the raw one is, when the check takes it as it is. -/
theorem readsBack_checked_iff {value : β} :
    (w.checked raw check lay).ReadsBack value ↔ raw.ReadsBack (lay value) := by
  rw [Codec.ReadsBack, lawful.decode_checked_eq_ok_iff, lawful.encode_checked]
  -- Only its own parts make the value, so that there is no choice left.
  simp only [inverse, exists_eq_right, Codec.ReadsBack]

/-- Checked values are read faithfully if the raw ones are. -/
theorem faithful_checked (faithful : raw.Faithful) : (w.checked raw check lay).Faithful where
  eq_of_decode_encode := by
    intro value found read
    rw [lawful.decode_checked_eq_ok_iff, lawful.encode_checked] at read
    obtain ⟨parts, back, passed⟩ := read
    -- The raw value that is read is the one that was written, and makes only one value.
    rw [faithful.eq_of_decode_encode back, inverse.2 rfl] at passed
    exact (Except.ok.inj passed).symm
  readsBack := by
    intro json value read
    -- What passed the check is laid out as the parts that were read.
    obtain ⟨parts, found, passed⟩ := lawful.decode_checked_eq_ok_iff.1 read
    rw [inverse.1 passed] at found
    exact (lawful.readsBack_checked_iff inverse).2 (faithful.readsBack found)

end Checks

end Wire.Lawful

end Fractal
