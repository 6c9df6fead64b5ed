import Fractal.Proofs.Wire.Reading

/-!
Requests that leave something out.

Every field of a request but the name of the figure has a standard. Main statement: over every
library that keeps its laws, what is read is the standard request with exactly the given fields
changed, from an object or from a list, and nothing is read where the name is missing or anything
that is given is not what it should be.
-/

namespace Fractal

/-- A JSON value that spells a point: its two coordinates in a list. -/
inductive Point.Spelling : Json → Point → Prop where
  /-- The coordinates stand in a list of two numbers. -/
  | placed {across up : Json} {p : Point} (x : Double.Spelling across p.x)
      (y : Double.Spelling up p.y) : Spelling (.array [across, up]) p

/-- A point is read from what spells it. -/
theorem Wire.Lawful.decode_point_iff_spelling {w : Wire} (lawful : w.Lawful) {json : Json}
    {p : Point} : w.point.decode json = .ok p ↔ Point.Spelling json p := by
  simp only [lawful.decode_point, lawful.decode_float]
  constructor
  -- A point is read from a list of two numbers, which is its only spelling.
  · rintro ⟨_, _, rfl, x, y⟩
    exact .placed x y
  · rintro ⟨x, y⟩
    exact ⟨_, _, rfl, x, y⟩

namespace Request

/-- A field of a request that may be left out. -/
inductive Field where
  /-- The length of one step. -/
  | stepSize
  /-- The number of rounds. -/
  | depth
  /-- The position at the start. -/
  | origin
  /-- The heading at the start. -/
  | heading
  /-- The largest number of symbols that is accepted. -/
  | maxSymbols

namespace Field

/-- The name under which a field is given. -/
def name : Field → String
  | stepSize => "stepSize"
  | depth => "recursionDepth"
  | origin => "origin"
  | heading => "initialHeading"
  | maxSymbols => "maxSymbols"

/-- The values of a field. -/
def Value : Field → Type
  | stepSize | heading => Float
  | depth => Int32
  | origin => Point
  | maxSymbols => Count

/-- The value of a field in a request. -/
def read : (field : Field) → Request → field.Value
  | stepSize, r => r.stepSize
  | depth, r => r.depth
  | origin, r => r.origin
  | heading, r => r.heading
  | maxSymbols, r => r.maxSymbols

/-- A JSON value that spells a value of a field. -/
def Spelling : (field : Field) → Json → field.Value → Prop
  | stepSize, json, (x : Float) | heading, json, (x : Float) => Double.Spelling json x
  | depth, json, (n : Int32) => json = .whole n.toInt
  | origin, json, (p : Point) => Point.Spelling json p
  | maxSymbols, json, (n : Count) => json = .whole n.toNat

/-- The value of a field that is left out. -/
def standard : (field : Field) → field.Value
  | stepSize => standardStep
  | depth => standardDepth
  | origin => Point.zero
  | heading => (0 : Float)
  | maxSymbols => standardMaxSymbols

/-- A request has the standard in a field, unless something given spells a value that changes it. -/
def Follows (field : Field) (given : Option Json) (r : Request) : Prop :=
  ∃ change, Option.Rel field.Spelling given change ∧ change.getD field.standard = field.read r

/-- A request for a name has the standard in every field. -/
theorem read_ofName (field : Field) (figureName : String) :
    field.read (ofName figureName) = field.standard := by
  cases field <;> rfl

/-- Null spells no value of any field. -/
theorem not_spelling_null (field : Field) (value : field.Value) : ¬field.Spelling .null value := by
  -- Numbers, whole numbers and lists are none of them null.
  cases field <;> rintro ⟨⟩

/-- What is given for a field spells the value that the request has there. -/
theorem Follows.spelling {field : Field} {supplied : Json} {r : Request}
    (follows : field.Follows (some supplied) r) : field.Spelling supplied (field.read r) := by
  obtain ⟨_, ⟨spelled⟩, rfl⟩ := follows
  exact spelled

end Field

/-- A request with some of its fields changed. -/
def changed (r : Request) (changes : (field : Field) → Option field.Value) : Request where
  figureName := r.figureName
  stepSize := (changes .stepSize).getD r.stepSize
  depth := (changes .depth).getD r.depth
  origin := (changes .origin).getD r.origin
  heading := (changes .heading).getD r.heading
  maxSymbols := (changes .maxSymbols).getD r.maxSymbols

/-- Exactly the fields that are changed differ from those of the request. -/
theorem read_changed (r : Request) (changes : (field : Field) → Option field.Value)
    (field : Field) : field.read (r.changed changes) = (changes field).getD (field.read r) := by
  cases field <;> rfl

/-- The names of all fields of a request, in the order of a list. -/
def declared : List String :=
  ["fractalName", "stepSize", "recursionDepth", "origin", "initialHeading", "maxSymbols"]

section Reading

variable {w : Wire} (lawful : w.Lawful)

include lawful

/-- A request is read from an object if no name is repeated, and every field is as it is given. -/
theorem decode_object_eq_ok_iff {entries : List (String × Json)} {r : Request} :
    w.request.decode (.object entries) = .ok r ↔ Json.Once declared entries ∧
      entries.lookup "fractalName" = some (.text r.figureName) ∧
        ∀ field : Field, field.Follows (entries.lookup field.name) r := by
  rw [Wire.request, lawful.decode_record, Record.spelling_object_iff]
  refine and_congr_right fun _ => ?_
  simp only [Wire.requestRecord, List.forall_mem_cons, Record.Field.reads_required_iff,
    Record.Field.reads_optional_iff, lawful.decode_text, lawful.decode_float, lawful.decode_int32,
    lawful.decode_point_iff_spelling, lawful.decode_count]
  constructor
  -- The six fields in order: the required name, and five with a standard to fall back on.
  · rintro ⟨⟨_, named, rfl⟩, stepSize, depth, origin, heading, maxSymbols, -⟩
    refine ⟨named, fun field => ?_⟩
    cases field <;> assumption
  · rintro ⟨named, each⟩
    exact ⟨⟨_, named, rfl⟩, each .stepSize, each .depth, each .origin, each .heading,
      each .maxSymbols, List.forall_mem_nil _⟩

/-- The standard request with some fields changed is read from the name and these fields. -/
theorem decode_object_of_rel {entries : List (String × Json)} {figureName : String}
    {changes : (field : Field) → Option field.Value} (once : Json.Once declared entries)
    (named : entries.lookup "fractalName" = some (.text figureName))
    (each : ∀ field : Field,
      Option.Rel field.Spelling (entries.lookup field.name) (changes field)) :
    w.request.decode (.object entries) = .ok ((ofName figureName).changed changes) := by
  refine (decode_object_eq_ok_iff lawful).2 ⟨once, named, fun field => ?_⟩
  -- The standard of the format is the one of the constructor, so that the same fields fall back.
  refine ⟨changes field, each field, ?_⟩
  rw [read_changed, field.read_ofName]

/-- Everything that is given under a name of a request was read, and spells what is there. -/
theorem spelling_of_decode {json : Json} {r : Request} (read : w.request.decode json = .ok r) :
    ("fractalName", .text r.figureName) ∈ json.entries declared ∧
    (∀ supplied, ("fractalName", supplied) ∈ json.entries declared →
      supplied = .text r.figureName) ∧
    ∀ (field : Field) (supplied : Json), (field.name, supplied) ∈ json.entries declared →
      field.Spelling supplied (field.read r) := by
  -- A list is read as the object that gives its items the declared names.
  have spells : w.requestRecord.Spelling (.object (json.entries declared)) r :=
    (lawful.decode_record.1 read).entries
  obtain ⟨once, named, each⟩ := (decode_object_eq_ok_iff lawful).1 (lawful.decode_record.2 spells)
  refine ⟨?_, fun supplied member => ?_, fun field supplied member => ?_⟩
  -- The name that was read stands among the entries.
  · obtain ⟨before, after, split, -⟩ := List.lookup_eq_some_iff.1 named
    rw [split]
    exact List.mem_append_right _ List.mem_cons_self
  -- No other entry has that name, so that it is the one that was read.
  · have found := once.lookup_eq_some (by decide) member
    exact Option.some.inj (found.symm.trans named)
  -- What is given is no reason to fall back on the standard.
  · have found := once.lookup_eq_some (by cases field <;> decide) member
    have follows := each field
    rw [found] at follows
    exact follows.spelling

end Reading

/--
A request that leaves something out is the standard request with exactly the given fields changed.

From an object it is read under the names, in any order and among any others. A list of the first
fields is read as every object with the same values under their names. Nothing is read if the name
of the figure is missing or no text, or if anything given for another field is null or spells none
of its values, be it given once or again. So whatever is given spells the value that was read, and
is never replaced.
-/
theorem decode_partial {w : Wire} (lawful : w.Lawful) (figureName : String)
    (changes : (field : Field) → Option field.Value) (entries : List (String × Json))
    (items : List Json) (json : Json) :
    let r := (ofName figureName).changed changes
    (Json.Once declared entries → entries.lookup "fractalName" = some (.text figureName) →
      (∀ field : Field, Option.Rel field.Spelling (entries.lookup field.name) (changes field)) →
      w.request.decode (.object entries) = .ok r) ∧
    (r.figureName = figureName ∧ ∀ field : Field,
      field.read r = (changes field).getD (field.read (ofName figureName))) ∧
    (items.length ≤ declared.length → Json.Once declared entries →
      (∀ (place : Nat) (name : String), declared[place]? = some name →
        entries.lookup name = items[place]?) →
      ∀ found, w.request.decode (.array items) = .ok found ↔
        w.request.decode (.object entries) = .ok found) ∧
    ((∀ text, ("fractalName", .text text) ∉ json.entries declared) →
      ∃ fault, w.request.decode json = .error fault) ∧
    (∀ supplied, ("fractalName", supplied) ∈ json.entries declared →
      (∀ text, supplied ≠ .text text) → ∃ fault, w.request.decode json = .error fault) ∧
    (∀ (field : Field) (supplied : Json), (field.name, supplied) ∈ json.entries declared →
      (supplied = .null ∨ ∀ value, ¬field.Spelling supplied value) →
      ∃ fault, w.request.decode json = .error fault) ∧
    ∀ found, w.request.decode json = .ok found →
      (∀ supplied, ("fractalName", supplied) ∈ json.entries declared →
        supplied = .text found.figureName) ∧
      ∀ (field : Field) (supplied : Json), (field.name, supplied) ∈ json.entries declared →
        field.Spelling supplied (field.read found) := by
  intro r
  refine ⟨decode_object_of_rel lawful, ⟨rfl, (ofName figureName).read_changed changes⟩,
    ?_, ?_, ?_, ?_, ?_⟩
  -- Both forms spell the same values: an item is what the object has under its name.
  · intro short once gives found
    rw [Wire.request, lawful.decode_record, lawful.decode_record]
    exact Record.spelling_array_iff_object short once gives
  -- A request that was read anyway would have the name, and a value that the given one spells.
  · intro nameless
    refine Except.exists_error_of_ne_ok fun found read => ?_
    exact nameless found.figureName (spelling_of_decode lawful read).1
  -- A name that is no text is not the one that was read.
  · intro supplied member other
    refine Except.exists_error_of_ne_ok fun found read => ?_
    exact other found.figureName ((spelling_of_decode lawful read).2.1 supplied member)
  -- Neither null nor a wrong value spells the value that was read.
  · intro field supplied member bad
    refine Except.exists_error_of_ne_ok fun found read => ?_
    have spelled := (spelling_of_decode lawful read).2.2 field supplied member
    rcases bad with rfl | unspelled
    · exact field.not_spelling_null _ spelled
    · exact unspelled _ spelled
  · intro found read
    exact (spelling_of_decode lawful read).2

/-- Two fields changed from an object and from a list, no name, and fields that are null. -/
theorem decode_partial_tree1 :
    let w := Wire.standard
    let step : Json := .real 2.5 (by decide +kernel)
    let entries : List (String × Json) :=
      [("recursionDepth", .whole 3), ("note", .null), ("fractalName", .text "tree1"),
        ("stepSize", step)]
    let r : Request := { ofName "tree1" with stepSize := 2.5, depth := 3 }
    w.request.decode (.object entries) = .ok r ∧
      w.request.decode (.array [.text "tree1", step, .whole 3]) = .ok r ∧
      (∃ fault, w.request.decode (.object [("stepSize", step)]) = .error fault) ∧
      (∃ fault, w.request.decode (.array [.text "tree1", .null]) = .error fault) ∧
      ∃ fault, w.request.decode
        (.object (entries ++ [("recursionDepth", .null)])) = .error fault := by
  intro w step entries r
  -- Only the step and the depth are given, and the rest falls back.
  let changes : (field : Field) → Option field.Value
    | .stepSize => some (2.5 : Float)
    | .depth => some (3 : Int32)
    | .origin | .heading | .maxSymbols => none
  have each (field : Field) :
      Option.Rel field.Spelling (entries.lookup field.name) (changes field) := by
    cases field with
    | stepSize => exact .some (.real 2.5 _)
    | depth => exact .some rfl
    | origin | heading | maxSymbols => exact .none
  -- The list gives the first three, and the object has nothing under the other names.
  have gives (place : Nat) (name : String) (here : declared[place]? = some name) :
      entries.lookup name = [.text "tree1", step, .whole 3][place]? := by
    rcases place with _ | _ | _ | _ | _ | _ | place <;> cases here <;> rfl
  have once : Json.Once declared entries := by
    change ∀ name ∈ declared, ["recursionDepth", "note", "fractalName", "stepSize"].count name ≤ 1
    decide
  have partly (items : List Json) (json : Json) :=
    decode_partial Wire.lawful_standard "tree1" changes entries items json
  have read := (partly [] .null).1 once rfl each
  refine ⟨read, ?_, ?_, ?_, ?_⟩
  -- The list is read as the object is.
  · exact ((partly _ .null).2.2.1 (by decide) once gives r).2 read
  -- Without a name nothing is read.
  · exact (partly [] _).2.2.2.1 (by simp [Json.entries])
  -- In a list a null is given to the field whose place it has.
  · exact (partly [] _).2.2.2.2.2.1 .stepSize .null
      (List.mem_iff_getElem?.2 ⟨1, rfl⟩) (.inl rfl)
  -- In an object the second depth is refused, though the first would be read.
  · exact (partly [] _).2.2.2.2.2.1 .depth .null
      (List.mem_append_right _ List.mem_cons_self) (.inl rfl)

end Request

end Fractal
