import Fractal.Proofs.Rendering
import Fractal.Proofs.Turtle.Continuation

/-!
What is reported while a request is fulfilled.

An event is told by its fields alone, whatever kind it is of. A request ends at one of its checks,
at the length of its expansion, or with a drawing. Main statement: the first ending is silent, the
second one is warned of, and the third one is told in three steps that agree on all counts.
-/

namespace Fractal

namespace Event

/-- The wording of an event decides how much it matters. -/
theorem level_eq_of_message_eq {a b : Event} (wording : a.message = b.message) :
    a.level = b.level := by
  -- No two kinds of events are worded alike.
  cases a <;> cases b <;> first | rfl | simp [message] at wording

/-- No event gives a field twice. -/
theorem nodup_fields (event : Event) : (event.fields.map Prod.fst).Nodup := by
  -- Six kinds of events, and in each the names are written out.
  cases event <;> simp [fields]

/-- An event is all in its fields, so that nothing it says is lost on who reads them. -/
theorem fields_injective : Function.Injective fields := by
  intro a b same
  -- The names of the fields tell the kinds apart, and each value stands under a name of its own.
  cases a <;> cases b <;> simp [fields, Int32.toInt_inj, ← Count.ext_iff] at same ⊢
  all_goals first
    | exact same
    -- A figure is given by its name only, which no other one has.
    | exact ⟨Figure.name_injective same.1, same.2⟩

end Event

/-- No settings are refused for the length of an expansion. -/
theorem Setup.validate_ne_tooLarge (s : Setup) (projected limit : Count) :
    s.validate ≠ .error (.tooLarge projected limit) := by
  -- Each of the three refusals names the setting that it is about.
  rw [validate_eq]
  split_ifs <;> simp

namespace Request

/-- A request is refused in silence for another reason than its length, or its checks pass. -/
theorem render_cases (r : Request) :
    (∃ fault, r.render = Run.fail fault ∧ ∀ projected limit, fault ≠ .tooLarge projected limit) ∨
      ∃ figure : Figure, figure.name = r.figureName ∧ r.setup.validate = .ok () ∧ ¬r.depth < 0 := by
  by_cases known : ∃ figure : Figure, figure.name = r.figureName
  · obtain ⟨figure, named⟩ := known
    cases checked : r.setup.validate with
    -- The settings are refused, and never for a length.
    | error fault =>
      refine .inl ⟨fault, render_of_invalid named checked, fun projected limit same => ?_⟩
      exact r.setup.validate_ne_tooLarge projected limit (same ▸ checked)
    | ok _ =>
      -- Sound settings leave the sign of the depth.
      by_cases negative : r.depth < 0
      · exact .inl ⟨_, render_of_neg named checked negative, by simp⟩
      · exact .inr ⟨figure, named, rfl, negative⟩
  -- A request for no figure ends without a report.
  · exact .inl ⟨_, render_of_unknown (not_exists.1 known), by simp⟩

/--
The reports on a request tell how it ends.

One that is refused for its length is warned of once, with the numbers of the refusal, and any other
refusal is silent. A drawing is told in three steps without a warning: its expansion, its walk, and
itself. These agree with each other and with the drawing on the number of symbols and of segments,
and that number of symbols is the one projected, cut off at the largest number of 64 bits.
-/
theorem render_events (r : Request) :
    let run := r.render
    (∀ projected limit, run.outcome = .error (.tooLarge projected limit) →
      run.events = [.oversized r.depth projected limit] ∧ run.events.map Event.level = [.warn]) ∧
    (∀ fault, run.outcome = .error fault →
      (∀ projected limit, fault ≠ .tooLarge projected limit) → run.events = []) ∧
    ∀ d, run.outcome = .ok d →
      d.figure.name = r.figureName ∧
      run.events = [.expanded r.depth d.figure.grammar.start.length d.symbolCount,
        .interpreted d.symbolCount d.path.size,
        .rendered d.figure r.depth d.symbolCount d.path.size] ∧
      run.events.map Event.level = [.debug, .debug, .debug] ∧
      ∃ projected, d.figure.grammar.projectedLength r.depth = .ok projected ∧
        projected.toNat = min d.symbolCount (2 ^ 64 - 1) := by
  intro run
  rcases r.render_cases with ⟨cause, silent, other⟩ | ⟨figure, named, valid, natural⟩
  -- A silent refusal is none for the length, so only the second part applies to it.
  · have ended : run = Run.fail cause := silent
    rw [ended]
    refine ⟨fun projected limit refused => ?_, fun _ _ _ => rfl, fun d drawn => ?_⟩
    · exact absurd (Except.error.inj refused) (other projected limit)
    · cases drawn
  by_cases long : r.maxSymbols < Count.clamp (r.word figure).length
  -- The warning names the numbers of the refusal, which is the only one that remains.
  · have ended : run = _ := render_of_oversized named valid natural long
    rw [ended]
    refine ⟨fun projected limit refused => ?_, fun fault refused other => ?_, fun d drawn => ?_⟩
    · cases refused
      exact ⟨rfl, rfl⟩
    · exact absurd (Except.error.inj refused).symm (other _ _)
    · cases drawn
  -- The three steps and the drawing take their numbers from one expansion and one path.
  · have ended : run = _ := render_of_fitting named valid natural long
    rw [ended]
    refine ⟨fun projected limit refused => ?_, fun fault refused _ => ?_, fun d drawn => ?_⟩
    · cases refused
    · cases refused
    · cases drawn
      exact ⟨named, rfl, rfl, _, figure.grammar.projectedLength_of_nonneg natural,
        Count.toNat_clamp _⟩

/-- One generation of the first plant within its limit, beyond it, and of a figure of no name. -/
theorem render_events_tree1 :
    let r : Request := { ofName "tree1" with depth := 1, maxSymbols := 11 }
    let long : Request := { r with maxSymbols := 10 }
    let unknown : Request := { r with figureName := "fern" }
    (∃ d, r.render.outcome = .ok d) ∧
      r.render.events = [.expanded 1 1 11, .interpreted 11 5, .rendered .tree1 1 11 5] ∧
      long.render.outcome = .error (.tooLarge 11 10) ∧
      long.render.events = [.oversized 1 11 10] ∧
      unknown.render.outcome = .error (.unknownFigure "fern") ∧
      unknown.render.events = [] := by
  have valid : Setup.standard.validate = .ok () := by rfl
  intro r long unknown
  have first : r.word .tree1 = "F[+F]F[-F]F".toList := Figure.rounds_one_tree1
  have same : long.word .tree1 = "F[+F]F[-F]F".toList := Figure.rounds_one_tree1
  have drawn : r.render = _ := render_of_fitting (show Figure.tree1.name = _ from rfl) valid
    (by decide) (by rw [first]; decide)
  have refused : long.render = _ := render_of_oversized (show Figure.tree1.name = _ from rfl) valid
    (by decide) (by rw [same]; decide)
  have strange : unknown.render = _ := render_of_unknown (by intro figure; cases figure <;> decide)
  -- The word has five strokes.
  have size : (r.path .tree1).size = 5 := by
    refine (Walker.length_segments_walk _ _ _).trans ?_
    rw [first]
    decide
  -- One part of the theorem for each of the three endings.
  have told := (r.render_events.2.2 _ (congrArg Run.outcome drawn)).2.1
  have warned := (long.render_events.1 _ _ (congrArg Run.outcome refused)).1
  have silent := unknown.render_events.2.1 _ (congrArg Run.outcome strange) (by simp)
  -- Eleven symbols are one too many for the smaller limit.
  simp only [first, size] at told
  rw [same] at refused warned
  exact ⟨⟨_, congrArg Run.outcome drawn⟩, told, congrArg Run.outcome refused, warned,
    congrArg Run.outcome strange, silent⟩

end Request

end Fractal
