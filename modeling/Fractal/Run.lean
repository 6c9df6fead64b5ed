import Fractal.Event

/-! Computations that report events and end in a value or a refusal. -/

namespace Fractal

/-- What a computation reported, and how it ended. -/
structure Run (α : Type) where
  /-- The events in the order in which they happened. -/
  events : List Event
  /-- The value, or the reason why there is none. -/
  outcome : Except Fault α

namespace Run

variable {α β : Type}

/-- A value at once, with nothing to report. -/
def ok (value : α) : Run α := ⟨[], .ok value⟩

/-- A refusal at once, with nothing to report. -/
def fail (fault : Fault) : Run α := ⟨[], .error fault⟩

/-- Nothing but a report. -/
def report (events : List Event) : Run Unit := ⟨events, .ok ()⟩

/-- A check or a computation that reports nothing. -/
def lift (outcome : Except Fault α) : Run α := ⟨[], outcome⟩

/-- The second run starts from the value of the first, and reports after it. -/
def andThen (first : Run α) (second : α → Run β) : Run β :=
  match first.outcome with
  | .ok value => ⟨first.events ++ (second value).events, (second value).outcome⟩
  -- What was reported before a refusal stays reported.
  | .error fault => ⟨first.events, .error fault⟩

/-- Runs follow one another until one is refused. -/
instance : Monad Run where
  pure := ok
  bind := andThen

/-- Two runs that report and end alike are the same. -/
@[ext] theorem ext {r s : Run α} (events : r.events = s.events) (outcome : r.outcome = s.outcome) :
    r = s := by
  cases r; cases s; cases events; cases outcome; rfl

/-- A plain value is a run that reports nothing. -/
@[simp] theorem pure_eq (value : α) : (pure value : Run α) = ok value := rfl

/-- A sequence starts from the value of the first run. -/
@[simp] theorem ok_bind (value : α) (second : α → Run β) : (ok value >>= second) = second value :=
  rfl

/-- Nothing follows a refusal. -/
@[simp] theorem fail_bind (fault : Fault) (second : α → Run β) :
    (fail fault >>= second) = fail fault := rfl

/-- A check that passes is a value at once. -/
@[simp] theorem lift_ok (value : α) : lift (.ok value) = ok value := rfl

/-- A check that fails is a refusal at once. -/
@[simp] theorem lift_error (fault : Fault) : (lift (.error fault) : Run α) = fail fault := rfl

/-- A report comes before what follows it. -/
@[simp] theorem report_bind (events : List Event) (second : Unit → Run β) :
    (report events >>= second) = ⟨events ++ (second ()).events, (second ()).outcome⟩ := rfl

/-- A run that ended in a value reports before what follows it. -/
@[simp] theorem mk_ok_bind (events : List Event) (value : α) (second : α → Run β) :
    ((⟨events, .ok value⟩ : Run α) >>= second) =
      ⟨events ++ (second value).events, (second value).outcome⟩ := rfl

/-- Nothing follows a run that ended in a refusal. -/
@[simp] theorem mk_error_bind (events : List Event) (fault : Fault) (second : α → Run β) :
    ((⟨events, .error fault⟩ : Run α) >>= second) = ⟨events, .error fault⟩ := rfl

/-- A function is applied to the value of a run, and changes neither reports nor refusals. -/
theorem map_eq (f : α → β) (r : Run α) : f <$> r = ⟨r.events, r.outcome.map f⟩ := by
  change r.andThen (fun value => ok (f value)) = _
  cases outcome : r.outcome <;> simp [andThen, outcome, ok, Except.map]

/-- A sequence ends in a value exactly when the first run does, and the second one from there. -/
theorem outcome_bind_eq_ok_iff {first : Run α} {second : α → Run β} {result : β} :
    (first >>= second).outcome = .ok result ↔
      ∃ value, first.outcome = .ok value ∧ (second value).outcome = .ok result := by
  change (first.andThen second).outcome = .ok result ↔ _
  cases ended : first.outcome <;> simp [andThen, ended]

/-- Sequences of runs obey the laws of a monad. -/
instance : LawfulMonad Run :=
  LawfulMonad.mk' Run
    (fun r => by
      change r.andThen ok = r
      cases outcome : r.outcome <;> simp [andThen, outcome, ok, Run.ext_iff])
    (fun _ _ => rfl)
    (fun r f h => by
      change (r.andThen f).andThen h = r.andThen fun value => (f value).andThen h
      cases outcome : r.outcome with
      | error fault => simp [andThen, outcome]
      | ok value =>
        cases next : (f value).outcome <;>
          simp [andThen, outcome, next, List.append_assoc])

end Run

end Fractal
