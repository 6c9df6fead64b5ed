import Fractal.Turtle.Plotter
import Fractal.Proofs.Turtle.Stack

/-!
How an interpretation ends: by the first fault of its settings, by an unmatched return that its
policy does not allow, or with the path and the events of the whole walk.
-/

namespace Fractal

/-- Settings are judged by the step, then by the origin, then by the heading. -/
theorem Setup.validate_eq (s : Setup) :
    s.validate =
      if s.step.isFinite = false ∨ s.step ≤ 0 then .error (.badStep s.step)
      else if s.origin.x.isFinite = false ∨ s.origin.y.isFinite = false then
        .error (.badOrigin s.origin)
      else if s.heading.isFinite = false then .error (.badHeading s.heading)
      else .ok () := by
  -- A point is finite when both coordinates are, so it fails when one of them does.
  have origin : ¬s.origin.isFinite ↔ s.origin.x.isFinite = false ∨ s.origin.y.isFinite = false := by
    rw [Point.isFinite, Bool.and_eq_true, not_and_or, Bool.not_eq_true, Bool.not_eq_true]
  rw [validate]
  simp only [not_positiveFinite_iff, origin, Bool.not_eq_true]

/-- Settings with a positive step and finite numbers everywhere are in order. -/
theorem Setup.validate_of_finite {s : Setup} (step : PositiveFinite s.step)
    (origin : s.origin.isFinite) (heading : s.heading.isFinite) : s.validate = .ok () := by
  rw [validate, if_neg (not_not.2 step), if_neg (not_not.2 origin), if_neg (not_not.2 heading)]

/-- Every policy allows a walk without unmatched returns. -/
@[simp] theorem PopPolicy.judge_nil (policy : PopPolicy) : policy.judge [] = .ok () := by
  cases policy <;> rfl

/-- The lenient policy allows every walk. -/
@[simp] theorem PopPolicy.judge_lenient (skipped : List Nat) :
    lenient.judge skipped = .ok () := by
  cases skipped <;> rfl

/-- The strict policy refuses a walk for its first unmatched return. -/
@[simp] theorem PopPolicy.judge_strict_cons (index : Nat) (later : List Nat) :
    strict.judge (index :: later) = .error (.unmatchedPop index) := rfl

namespace Plotter

/-- A walk over two words is a walk over the first and then over the second. -/
theorem walk_append (p : Plotter) (angle : Float) (first second : Word) :
    p.walk angle (first ++ second) =
      (p.walk angle first).walk (Pose.gait p.setup.step angle) (p.table.ops second) := by
  rw [walk, SymbolTable.ops_append, Walker.walk_append]
  rfl

/-- A walk reads every symbol of its word. -/
@[simp] theorem read_walk (p : Plotter) (angle : Float) (word : Word) :
    (p.walk angle word).read = word.length := by
  rw [walk, Walker.read_walk, SymbolTable.length_ops]
  exact Nat.zero_add _

/-- A walk over a balanced word ends with nothing saved and nothing skipped. -/
theorem walk_of_balanced {p : Plotter} {word : Word} (balanced : Balanced (p.table.ops word))
    (angle : Float) : (p.walk angle word).saved = [] ∧ (p.walk angle word).skipped = [] := by
  -- Neither is there anything saved or skipped before the walk.
  obtain ⟨stack, notes⟩ := (Walker.start p.setup.pose).walk_balanced
    (Pose.gait p.setup.step angle) balanced
  refine ⟨stack, ?_⟩
  rw [Walker.skipped, walk, notes]
  rfl

/-- Settings that are not in order end an interpretation before it reads a symbol. -/
theorem interpret_of_invalid {p : Plotter} {fault : Fault}
    (invalid : p.setup.validate = .error fault) (g : Grammar) (word : Word) :
    p.interpret g word = Run.fail fault := by
  rw [interpret, invalid, Run.lift_error, Run.fail_bind]

/-- A walk that the policy refuses leaves nothing but its fault. -/
theorem interpret_of_refused {p : Plotter} {g : Grammar} {word : Word} {fault : Fault}
    (valid : p.setup.validate = .ok ())
    (refused : p.setup.policy.judge (p.walk g.angle word).skipped = .error fault) :
    p.interpret g word = Run.fail fault := by
  -- The report would only be made after the judgement.
  rw [interpret, valid, Run.lift_ok, Run.ok_bind]
  simp only [refused, Run.lift_error, Run.fail_bind]

/-- A walk that the policy allows is reported and drawn as a whole. -/
theorem interpret_of_allowed {p : Plotter} {g : Grammar} {word : Word}
    (valid : p.setup.validate = .ok ())
    (allowed : p.setup.policy.judge (p.walk g.angle word).skipped = .ok ()) :
    p.interpret g word =
      { events := (p.walk g.angle word).events, outcome := .ok (p.walk g.angle word).path } := by
  rw [interpret, valid, Run.lift_ok, Run.ok_bind]
  -- Nothing has been reported before, so the events are those of the walk.
  simp only [allowed, Run.lift_ok, Run.ok_bind, Run.report_bind, Run.pure_eq]
  simp only [Run.ok, List.append_nil]

/-- With settings in order, only the judgement of the policy decides between path and fault. -/
theorem outcome_of_valid {p : Plotter} (valid : p.setup.validate = .ok ()) (g : Grammar)
    (word : Word) :
    (p.interpret g word).outcome =
      (p.setup.policy.judge (p.walk g.angle word).skipped).map
        fun _ => (p.walk g.angle word).path := by
  -- The judgement decides between the fault and the path.
  cases judged : p.setup.policy.judge (p.walk g.angle word).skipped with
  | error fault => rw [interpret_of_refused valid judged]; rfl
  | ok _ => rw [interpret_of_allowed valid judged]; rfl

/-- An interpretation succeeds with the path of the walk, if settings and policy allow it. -/
theorem interpret_eq_ok_iff {p : Plotter} {g : Grammar} {word : Word} {path : Path} :
    (p.interpret g word).outcome = .ok path ↔
      p.setup.validate = .ok () ∧
        p.setup.policy.judge (p.walk g.angle word).skipped = .ok () ∧
        (p.walk g.angle word).path = path := by
  -- The three endings of an interpretation exclude one another.
  cases checked : p.setup.validate with
  | error fault => simp [interpret_of_invalid checked, Run.fail]
  | ok _ =>
    cases judged : p.setup.policy.judge (p.walk g.angle word).skipped with
    | error fault => simp [interpret_of_refused checked judged, Run.fail]
    | ok _ => simp [interpret_of_allowed checked judged]

/-- Turtles with one setting draw two words alike, if the symbols have the same operations. -/
theorem interpret_congr {p q : Plotter} {g h : Grammar} {word other : Word}
    (setup : q.setup = p.setup) (angle : h.angle = g.angle)
    (ops : q.table.ops other = p.table.ops word) : q.interpret h other = p.interpret g word := by
  -- The walk depends on the settings, the angle and the ops, and on nothing else.
  have walks : q.walk h.angle other = p.walk g.angle word := by rw [walk, walk, setup, angle, ops]
  rw [interpret, interpret, walks, setup]

/-- A balanced word is drawn under every policy, with no event but that it was interpreted. -/
theorem interpret_of_balanced {p : Plotter} {word : Word} (valid : p.setup.validate = .ok ())
    (balanced : Balanced (p.table.ops word)) (g : Grammar) :
    p.interpret g word =
      { events := [.interpreted word.length (p.walk g.angle word).path.size]
        outcome := .ok (p.walk g.angle word).path } := by
  -- Without skipped returns there is nothing to refuse, and none of the warnings is due.
  obtain ⟨stack, notes⟩ := walk_of_balanced balanced g.angle
  have allowed : p.setup.policy.judge (p.walk g.angle word).skipped = .ok () := by
    rw [notes, PopPolicy.judge_nil]
  have size : (p.walk g.angle word).drawn.length = (p.walk g.angle word).path.size := by
    rw [Path.size, Walker.path, Walker.segments, List.length_reverse]
  rw [interpret_of_allowed valid allowed, Walker.events, notes, stack, read_walk, size]
  rfl

end Plotter

end Fractal
