import Fractal.Proofs.Names
import Fractal.Proofs.Grammar.Construction
import Fractal.Proofs.Wire.Faithful
import Fractal.Proofs.Wire.Reading

/-!
Values that a host exchanges are read back as they were written.

Main statement: over every library that keeps its laws, and for every kind of value, one with finite
numbers only is read back from its JSON form, one with any other number is not read back at all, and
whatever is read can be written and read again.
-/

namespace Fractal

/-! ### The numbers of a value -/

/-- The numbers of a point. -/
def Point.numbers (p : Point) : List Float := [p.x, p.y]

/-- The numbers of a pose. -/
def Pose.numbers (p : Pose) : List Float := p.position.numbers ++ [p.heading]

/-- The numbers of a segment. -/
def Segment.numbers (s : Segment Point) : List Float := s.start.numbers ++ s.stop.numbers

/-- The numbers of a path, those of its segments before those of its end. -/
def Path.numbers (path : Path) : List Float :=
  path.segments.flatMap Segment.numbers ++ path.final.numbers

/-- The numbers of some settings. -/
def Setup.numbers (s : Setup) : List Float := s.origin.numbers ++ [s.heading, s.step]

/-- The numbers of a request. -/
def Request.numbers (r : Request) : List Float := [r.stepSize] ++ r.origin.numbers ++ [r.heading]

/-- Every one of some numbers is finite. -/
def AllFinite (numbers : List Float) : Prop := ∀ x ∈ numbers, x.isFinite = true

/-- Whether all numbers are finite is decided one by one. -/
instance (numbers : List Float) : Decidable (AllFinite numbers) :=
  inferInstanceAs (Decidable (∀ x ∈ numbers, x.isFinite = true))

/-- The numbers of two lists are finite if those of each of them are. -/
@[simp] theorem allFinite_append {first second : List Float} :
    AllFinite (first ++ second) ↔ AllFinite first ∧ AllFinite second :=
  List.forall_mem_append

/-- The numbers of a list are finite if the first one and those after it are. -/
@[simp] theorem allFinite_cons {x : Float} {rest : List Float} :
    AllFinite (x :: rest) ↔ x.isFinite = true ∧ AllFinite rest :=
  List.forall_mem_cons

/-- No numbers are all finite. -/
@[simp] theorem allFinite_nil : AllFinite [] := List.forall_mem_nil _

/-- The numbers of many values are finite if those of each value are. -/
@[simp] theorem allFinite_flatMap {α : Type} {values : List α} {numbers : α → List Float} :
    AllFinite (values.flatMap numbers) ↔ ∀ value ∈ values, AllFinite (numbers value) :=
  List.forall_mem_flatMap

/-- The checks of a grammar let through exactly the parts that it is laid out as. -/
theorem Grammar.ofRules_parts_eq_ok_iff {parts : Word × List Rule × Float} {g : Grammar} :
    ofRules parts.1 parts.2.1.toArray parts.2.2 = .ok g ↔
      parts = (g.start, g.rules.toList, g.angle) := by
  obtain ⟨start, rules, angle⟩ := parts
  -- A grammar is made of its own start, rules and angle, and of no others.
  rw [ofRules_eq_ok_iff, Prod.mk.injEq, Prod.mk.injEq, ← Array.toList_inj, eq_comm,
    eq_comm (b := rules), eq_comm (b := angle)]

/-! ### What is read back of each kind -/

namespace Wire.Lawful

variable {w : Wire} (lawful : w.Lawful)

include lawful

/-- Every figure is read back. -/
theorem readsBack_figure (figure : Figure) : w.figure.ReadsBack figure :=
  lawful.readsBack_variant Figure.mem_all Figure.nodup_names figure

/-- Figures are read faithfully. -/
theorem faithful_figure : w.figure.Faithful :=
  lawful.faithful_variant Figure.mem_all Figure.nodup_names

/-- Every operation is read back. -/
theorem readsBack_op (op : Op) : w.op.ReadsBack op :=
  lawful.readsBack_variant Op.mem_all Op.nodup_names op

/-- Operations are read faithfully. -/
theorem faithful_op : w.op.Faithful :=
  lawful.faithful_variant Op.mem_all Op.nodup_names

/-- Every policy is read back. -/
theorem readsBack_policy (policy : PopPolicy) : w.policy.ReadsBack policy :=
  lawful.readsBack_variant PopPolicy.mem_all PopPolicy.nodup_names policy

/-- Policies are read faithfully. -/
theorem faithful_policy : w.policy.Faithful :=
  lawful.faithful_variant PopPolicy.mem_all PopPolicy.nodup_names

/-- Exactly the points with finite coordinates are read back. -/
theorem readsBack_point_iff_finite {p : Point} : w.point.ReadsBack p ↔ AllFinite p.numbers := by
  rw [lawful.readsBack_point_iff, lawful.readsBack_float_iff, lawful.readsBack_float_iff]
  simp [Point.numbers]

/-- Every rule is read back. -/
theorem readsBack_rule (rule : Rule) : w.rule.ReadsBack rule := by
  rw [Wire.rule, lawful.readsBack_record_iff]
  -- Neither field holds a number that could be lost.
  simp [lawful.readsBack_symbol, lawful.readsBack_word]

/-- Rules are read faithfully. -/
theorem faithful_rule : w.rule.Faithful := by
  refine lawful.faithful_record ?_
  -- Both fields have to be given, and are read by faithful codecs.
  simp only [List.forall_mem_cons]
  exact ⟨.required lawful.faithful_symbol, .required lawful.faithful_word, List.forall_mem_nil _⟩

/-- What is declared of a grammar is read back exactly if its angle is finite. -/
theorem readsBack_declaration_iff {parts : Word × List Rule × Float} :
    w.declaration.ReadsBack parts ↔ AllFinite [parts.2.2] := by
  rw [Wire.declaration, lawful.readsBack_record_iff]
  -- Words and rules are always read back, so the angle decides.
  simp [lawful.readsBack_word, lawful.readsBack_list_iff, lawful.readsBack_rule,
    lawful.readsBack_float_iff]

/-- What is declared of a grammar is read faithfully. -/
theorem faithful_declaration : w.declaration.Faithful := by
  refine lawful.faithful_record ?_
  simp only [List.forall_mem_cons]
  exact ⟨.required lawful.faithful_word, .required (lawful.faithful_list lawful.faithful_rule),
    .required lawful.faithful_float, List.forall_mem_nil _⟩

/-- Every grammar is read back exactly if its angle is finite, which no grammar gets around. -/
theorem readsBack_grammar_iff {g : Grammar} : w.grammar.ReadsBack g ↔ AllFinite [g.angle] := by
  rw [Wire.grammar, lawful.readsBack_checked_iff Grammar.ofRules_parts_eq_ok_iff,
    lawful.readsBack_declaration_iff]

/-- Grammars are read faithfully, since their parts make the same grammar when checked again. -/
theorem faithful_grammar : w.grammar.Faithful :=
  lawful.faithful_checked Grammar.ofRules_parts_eq_ok_iff lawful.faithful_declaration

/-- Exactly the poses with finite numbers are read back. -/
theorem readsBack_pose_iff {p : Pose} : w.pose.ReadsBack p ↔ AllFinite p.numbers := by
  rw [Wire.pose, lawful.readsBack_record_iff]
  simp [lawful.readsBack_point_iff_finite, lawful.readsBack_float_iff, Pose.numbers]

/-- Poses are read faithfully. -/
theorem faithful_pose : w.pose.Faithful := by
  refine lawful.faithful_record ?_
  simp only [List.forall_mem_cons]
  exact ⟨.required lawful.faithful_point, .required lawful.faithful_float, List.forall_mem_nil _⟩

/-- Exactly the segments with finite ends are read back. -/
theorem readsBack_segment_iff {s : Segment Point} :
    w.segment.ReadsBack s ↔ AllFinite s.numbers := by
  rw [Wire.segment, lawful.readsBack_record_iff]
  simp [lawful.readsBack_point_iff_finite, Segment.numbers]

/-- Segments are read faithfully. -/
theorem faithful_segment : w.segment.Faithful := by
  refine lawful.faithful_record ?_
  simp only [List.forall_mem_cons]
  exact ⟨.required lawful.faithful_point, .required lawful.faithful_point, List.forall_mem_nil _⟩

/-- Exactly the paths with finite numbers are read back. -/
theorem readsBack_path_iff {path : Path} : w.path.ReadsBack path ↔ AllFinite path.numbers := by
  rw [Wire.path, lawful.readsBack_record_iff]
  -- A path has its strokes and its final pose, and each of them its numbers.
  simp [lawful.readsBack_list_iff, lawful.readsBack_segment_iff, lawful.readsBack_pose_iff,
    Path.numbers]

/-- Paths are read faithfully. -/
theorem faithful_path : w.path.Faithful := by
  refine lawful.faithful_record ?_
  simp only [List.forall_mem_cons]
  exact ⟨.required (lawful.faithful_list lawful.faithful_segment), .required lawful.faithful_pose,
    List.forall_mem_nil _⟩

/-- Exactly the settings with finite numbers are read back, in order or not. -/
theorem readsBack_setup_iff {s : Setup} : w.setup.ReadsBack s ↔ AllFinite s.numbers := by
  rw [Wire.setup, lawful.readsBack_record_iff]
  simp [lawful.readsBack_point_iff_finite, lawful.readsBack_float_iff, lawful.readsBack_policy,
    Setup.numbers]

/-- Settings are read faithfully. -/
theorem faithful_setup : w.setup.Faithful := by
  refine lawful.faithful_record ?_
  simp only [List.forall_mem_cons]
  exact ⟨.required lawful.faithful_point, .required lawful.faithful_float,
    .required lawful.faithful_float, .required lawful.faithful_policy, List.forall_mem_nil _⟩

/-- Exactly the requests with finite numbers are read back; nothing is replaced by a standard. -/
theorem readsBack_request_iff {r : Request} : w.request.ReadsBack r ↔ AllFinite r.numbers := by
  rw [Wire.request, lawful.readsBack_record_iff]
  -- The name, the depth and the limit always come back; the other three hold doubles.
  simp [Wire.requestRecord, lawful.readsBack_text, lawful.readsBack_int32, lawful.readsBack_count,
    lawful.readsBack_point_iff_finite, lawful.readsBack_float_iff, Request.numbers]

/-- Requests are read faithfully. -/
theorem faithful_request : w.request.Faithful := by
  refine lawful.faithful_record ?_
  simp only [Wire.requestRecord, List.forall_mem_cons]
  -- Whatever stands for a field that was left out is finite, and so read back itself.
  have origin : w.point.ReadsBack .zero := lawful.readsBack_point_iff_finite.2 (by decide)
  exact ⟨.required lawful.faithful_text,
    .optional lawful.faithful_float (lawful.readsBack_float_iff.2 (by decide)),
    .optional lawful.faithful_int32 (lawful.readsBack_int32 _),
    .optional lawful.faithful_point origin,
    .optional lawful.faithful_float (lawful.readsBack_float_iff.2 (by decide)),
    .optional lawful.faithful_count (lawful.readsBack_count _), List.forall_mem_nil _⟩

/-- Exactly the drawings with finite numbers and at most so many symbols are read back. -/
theorem readsBack_drawing_iff {d : Drawing} :
    w.drawing.ReadsBack d ↔ d.symbolCount ≤ Count.top ∧ AllFinite d.path.numbers := by
  rw [Wire.drawing, lawful.readsBack_record_iff]
  -- The number of symbols is the one value here that may be too large for the format.
  simp [lawful.readsBack_figure, lawful.readsBack_natural_iff, lawful.readsBack_path_iff]

/-- Drawings are read faithfully. -/
theorem faithful_drawing : w.drawing.Faithful := by
  refine lawful.faithful_record ?_
  simp only [List.forall_mem_cons]
  exact ⟨.required lawful.faithful_figure, .required lawful.faithful_natural,
    .required lawful.faithful_path, List.forall_mem_nil _⟩

end Wire.Lawful

/-! ### All kinds of values -/

/-- A kind of values that a host exchanges. -/
inductive Kind where
  /-- A figure of the catalogue. -/
  | figure
  /-- A rule of a grammar. -/
  | rule
  /-- A grammar. -/
  | grammar
  /-- A pose of a turtle. -/
  | pose
  /-- An operation of a turtle. -/
  | op
  /-- A treatment of unmatched returns. -/
  | policy
  /-- The settings of a walk. -/
  | setup
  /-- A segment of a path. -/
  | segment
  /-- A path. -/
  | path
  /-- A request for a drawing. -/
  | request
  /-- A drawing. -/
  | drawing

namespace Kind

/-- The values of a kind. -/
def Value : Kind → Type
  | figure => Figure
  | rule => Rule
  | grammar => Grammar
  | pose => Pose
  | op => Op
  | policy => PopPolicy
  | setup => Setup
  | segment => Segment Point
  | path => Path
  | request => Request
  | drawing => Drawing

/-- The codec of a kind. -/
def codec (w : Wire) : (kind : Kind) → Codec kind.Value
  | figure => w.figure
  | rule => w.rule
  | grammar => w.grammar
  | pose => w.pose
  | op => w.op
  | policy => w.policy
  | setup => w.setup
  | segment => w.segment
  | path => w.path
  | request => w.request
  | drawing => w.drawing

/-- All numbers in double precision that a value holds. -/
def numbers : (kind : Kind) → kind.Value → List Float
  | figure, _ | rule, _ | op, _ | policy, _ => []
  | grammar, (g : Grammar) => [g.angle]
  | pose, (p : Pose) => p.numbers
  | setup, (s : Setup) => s.numbers
  | segment, (s : Segment Point) => s.numbers
  | path, (drawn : Path) => drawn.numbers
  | request, (r : Request) => r.numbers
  | drawing, (d : Drawing) => d.path.numbers

/-- A value counts symbols, if at all, by a number of at most 64 bits, as a host does. -/
def Fits : (kind : Kind) → kind.Value → Prop
  | drawing, (d : Drawing) => d.symbolCount ≤ Count.top
  | _, _ => True

/-- Over a library that keeps its laws, the values of every kind are read faithfully. -/
theorem faithful_codec {w : Wire} (lawful : w.Lawful) (kind : Kind) : (kind.codec w).Faithful := by
  cases kind with
  | figure => exact lawful.faithful_figure
  | rule => exact lawful.faithful_rule
  | grammar => exact lawful.faithful_grammar
  | pose => exact lawful.faithful_pose
  | op => exact lawful.faithful_op
  | policy => exact lawful.faithful_policy
  | setup => exact lawful.faithful_setup
  | segment => exact lawful.faithful_segment
  | path => exact lawful.faithful_path
  | request => exact lawful.faithful_request
  | drawing => exact lawful.faithful_drawing

/-- Of every kind, exactly the values that fit and have finite numbers only are read back. -/
theorem readsBack_codec_iff {w : Wire} (lawful : w.Lawful) (kind : Kind) (value : kind.Value) :
    (kind.codec w).ReadsBack value ↔ kind.Fits value ∧ AllFinite (kind.numbers value) := by
  cases kind with
  -- Values without numbers are always read back.
  | figure => exact iff_of_true (lawful.readsBack_figure value) ⟨trivial, allFinite_nil⟩
  | rule => exact iff_of_true (lawful.readsBack_rule value) ⟨trivial, allFinite_nil⟩
  | op => exact iff_of_true (lawful.readsBack_op value) ⟨trivial, allFinite_nil⟩
  | policy => exact iff_of_true (lawful.readsBack_policy value) ⟨trivial, allFinite_nil⟩
  -- All others depend on their numbers, and a drawing on its number of symbols as well.
  | grammar => exact lawful.readsBack_grammar_iff.trans (iff_of_eq (true_and _)).symm
  | pose => exact lawful.readsBack_pose_iff.trans (iff_of_eq (true_and _)).symm
  | setup => exact lawful.readsBack_setup_iff.trans (iff_of_eq (true_and _)).symm
  | segment => exact lawful.readsBack_segment_iff.trans (iff_of_eq (true_and _)).symm
  | path => exact lawful.readsBack_path_iff.trans (iff_of_eq (true_and _)).symm
  | request => exact lawful.readsBack_request_iff.trans (iff_of_eq (true_and _)).symm
  | drawing => exact lawful.readsBack_drawing_iff

/--
A value with finite numbers is read back exactly from the JSON value that it is written as.

One that has another number is refused, and never read as a different value. Whatever JSON value a
value is read from, it can be written and read again. For a grammar this includes what it replaces
every symbol by. All of this holds over every library that keeps its laws.
-/
theorem decode_encode {w : Wire} (lawful : w.Lawful) (kind : Kind) (value : kind.Value) :
    let again := (kind.codec w).decode ((kind.codec w).encode value)
    (kind.Fits value → (∀ x ∈ kind.numbers value, x.isFinite = true) → again = .ok value) ∧
    ((∃ x ∈ kind.numbers value, x.isFinite = false) → ∃ fault, again = .error fault) ∧
    (∀ json, (kind.codec w).decode json = .ok value → again = .ok value) ∧
    ∀ g : Grammar, ∃ h, w.grammar.decode (w.grammar.encode g) = .ok h ∧
      ∀ symbol, h.successor? symbol = g.successor? symbol := by
  intro again
  -- Both facts hold for every kind, so that the kinds are not told apart again.
  have faithful := kind.faithful_codec lawful
  have back := kind.readsBack_codec_iff lawful value
  refine ⟨fun fits finite => back.2 ⟨fits, finite⟩, ?_, fun json read => faithful.readsBack read,
    fun g => ⟨g, ?_, fun _ => rfl⟩⟩
  · rintro ⟨x, member, other⟩
    refine Except.exists_error_of_ne_ok fun found read => ?_
    -- Only the value itself could be read, and that only with finite numbers.
    obtain rfl := faithful.eq_of_decode_encode read
    have finite := (back.1 read).2 x member
    rw [other] at finite
    cases finite
  -- An angle was checked to be finite when the grammar was made.
  · exact lawful.readsBack_grammar_iff.2 (by simpa using g.angle_positive.1)

/-- A drawing is read back unless its last heading is lost, and so is a request for one name. -/
theorem decode_encode_drawing :
    let finished : Path := {
      segments := [{ start := .zero, stop := { x := 10, y := 0 } }],
      final := { position := { x := 10, y := 0 }, heading := -90 } }
    let lost : Path := { finished with final.heading := 0 / 0 }
    let d : Drawing := { figure := .tree1, symbolCount := 2, path := finished }
    let e : Drawing := { d with path := lost }
    let json : Json := .object [("note", .null), ("fractalName", .text "Tree 1")]
    let w := Wire.standard
    w.drawing.decode (w.drawing.encode d) = .ok d ∧
      (∃ fault, w.drawing.decode (w.drawing.encode e) = .error fault) ∧
      w.request.decode json = .ok (.ofName "Tree 1") ∧
      w.request.decode (w.request.encode (.ofName "Tree 1")) = .ok (.ofName "Tree 1") := by
  intro finished lost d e json w
  -- The first drawing has finite numbers only, the second ends with a heading that is none.
  have fits : 2 ≤ Count.top := by decide
  have finite : AllFinite (numbers drawing d) := by decide +kernel
  have other : (0 / 0 : Float).isFinite = false := by decide +kernel
  have member : 0 / 0 ∈ numbers drawing e := by simp [numbers, e, lost, Path.numbers, Pose.numbers]
  have read : w.request.decode json = .ok (.ofName "Tree 1") := by rfl
  have lawful := Wire.lawful_standard
  -- A request that was read from another text is read back from its own.
  exact ⟨(decode_encode lawful drawing d).1 fits finite,
    (decode_encode lawful drawing e).2.1 ⟨_, member, other⟩,
    read, (decode_encode lawful request (.ofName "Tree 1")).2.2.1 json read⟩

end Kind

end Fractal
