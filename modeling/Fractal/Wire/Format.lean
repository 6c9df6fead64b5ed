import Fractal.Request
import Fractal.Wire.Standard

/-! The JSON form of every value that a host exchanges, over a library for JSON values. -/

namespace Fractal

namespace Wire

variable (w : Wire)

/-- A word is written as the text of its symbols. -/
def word : Codec Word := w.text.map String.toList String.ofList

/-- A figure is written by its name. -/
def figure : Codec Figure := w.variant Figure.all Figure.name

/-- An operation is written by its name. -/
def op : Codec Op := w.variant Op.all Op.name

/-- A policy is written by its name. -/
def policy : Codec PopPolicy := w.variant PopPolicy.all PopPolicy.name

/-- A rule is written as its two sides. -/
def rule : Codec Rule :=
  w.record {
    fields := [
      .required "predecessor" w.symbol Rule.predecessor,
      .required "successor" w.word Rule.successor]
    make parts := { predecessor := parts.1, successor := parts.2.1 }
    make_values _ := rfl
    values_make _ := rfl
    distinct := by simp [Record.Field.required] }

/-- What is declared of a grammar is written as its start word, its rules and its angle. -/
def declaration : Codec (Word × List Rule × Float) :=
  w.record {
    fields := [
      .required "axiom" w.word Prod.fst,
      .required "rules" (w.list w.rule) fun parts => parts.2.1,
      .required "turnAngle" w.float fun parts => parts.2.2]
    make parts := (parts.1, parts.2.1, parts.2.2.1)
    make_values _ := rfl
    values_make _ := rfl
    distinct := by simp [Record.Field.required] }

/-- A grammar is written as what was declared of it, and checked again when it is read. -/
def grammar : Codec Grammar :=
  w.checked w.declaration
    (fun parts => Grammar.ofRules parts.1 parts.2.1.toArray parts.2.2)
    (fun g => (g.start, g.rules.toList, g.angle))

/-- A pose is written as a position and a heading. -/
def pose : Codec Pose :=
  w.record {
    fields := [
      .required "position" w.point Pose.position,
      .required "heading" w.float Pose.heading]
    make parts := { position := parts.1, heading := parts.2.1 }
    make_values _ := rfl
    values_make _ := rfl
    distinct := by simp [Record.Field.required] }

/-- A segment of the plane is written as its two ends. -/
def segment : Codec (Segment Point) :=
  w.record {
    fields := [
      .required "start" w.point Segment.start,
      .required "end" w.point Segment.stop]
    make parts := { start := parts.1, stop := parts.2.1 }
    make_values _ := rfl
    values_make _ := rfl
    distinct := by simp [Record.Field.required] }

/-- A path is written as its segments and the pose at its end. -/
def path : Codec Path :=
  w.record {
    fields := [
      .required "segments" (w.list w.segment) Path.segments,
      .required "final_state" w.pose Path.final]
    make parts := { segments := parts.1, final := parts.2.1 }
    make_values _ := rfl
    values_make _ := rfl
    distinct := by simp [Record.Field.required] }

/-- The settings of a walk are written field by field. -/
def setup : Codec Setup :=
  w.record {
    fields := [
      .required "origin" w.point Setup.origin,
      .required "heading" w.float Setup.heading,
      .required "step_size" w.float Setup.step,
      .required "pop_policy" w.policy Setup.policy]
    make parts := {
      origin := parts.1, heading := parts.2.1, step := parts.2.2.1, policy := parts.2.2.2.1 }
    make_values _ := rfl
    values_make _ := rfl
    distinct := by simp [Record.Field.required] }

/-- The fields of a request, of which all but the name may be left out. -/
def requestRecord : Record Request where
  fields := [
    .required "fractalName" w.text Request.figureName,
    -- The standards are those of a request that only names its figure.
    .optional "stepSize" w.float Request.standardStep Request.stepSize,
    .optional "recursionDepth" w.int32 Request.standardDepth Request.depth,
    .optional "origin" w.point .zero Request.origin,
    .optional "initialHeading" w.float 0 Request.heading,
    .optional "maxSymbols" w.count Request.standardMaxSymbols Request.maxSymbols]
  make parts := {
    figureName := parts.1, stepSize := parts.2.1, depth := parts.2.2.1, origin := parts.2.2.2.1,
    heading := parts.2.2.2.2.1, maxSymbols := parts.2.2.2.2.2.1 }
  make_values _ := rfl
  values_make _ := rfl
  distinct := by simp [Record.Field.required, Record.Field.optional]

/-- A request is written field by field; all but the name may be left out when it is read. -/
def request : Codec Request := w.record w.requestRecord

/-- A drawing is written as its figure, its number of symbols and its path. -/
def drawing : Codec Drawing :=
  w.record {
    fields := [
      .required "fractal" w.figure Drawing.figure,
      .required "symbol_count" w.natural Drawing.symbolCount,
      .required "path" w.path Drawing.path]
    make parts := { figure := parts.1, symbolCount := parts.2.1, path := parts.2.2.1 }
    make_values _ := rfl
    values_make _ := rfl
    distinct := by simp [Record.Field.required] }

end Wire

/-! ### The codecs of the hosts -/

/-- How hosts write and read a figure. -/
def Figure.codec : Codec Figure := Wire.standard.figure

/-- How hosts write and read an operation. -/
def Op.codec : Codec Op := Wire.standard.op

/-- How hosts write and read a policy. -/
def PopPolicy.codec : Codec PopPolicy := Wire.standard.policy

/-- How hosts write and read a rule. -/
def Rule.codec : Codec Rule := Wire.standard.rule

/-- How hosts write and read a grammar. -/
def Grammar.codec : Codec Grammar := Wire.standard.grammar

/-- How hosts write and read a pose. -/
def Pose.codec : Codec Pose := Wire.standard.pose

/-- How hosts write and read a segment. -/
def Segment.codec : Codec (Segment Point) := Wire.standard.segment

/-- How hosts write and read a path. -/
def Path.codec : Codec Path := Wire.standard.path

/-- How hosts write and read the settings of a walk. -/
def Setup.codec : Codec Setup := Wire.standard.setup

/-- How hosts write and read a request. -/
def Request.codec : Codec Request := Wire.standard.request

/-- How hosts write and read a drawing. -/
def Drawing.codec : Codec Drawing := Wire.standard.drawing

end Fractal
