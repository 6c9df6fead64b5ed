import Fractal.Request
import Fractal.Proofs.Names
import Fractal.Proofs.Growth.Projection
import Fractal.Proofs.Turtle.BalancedExpansion

/-!
Fulfilment of requests: which check refuses one, and what all others get.

The figures of the catalogue are balanced, so a request that passes the checks is always drawn.
-/

namespace Fractal

namespace Figure

/-- The start word of a figure is balanced. -/
theorem balanced_start (figure : Figure) : Balanced (SymbolTable.standard.ops figure.start) := by
  cases figure <;> decide

/-- The rules of a figure keep words balanced. -/
theorem keepsBalance (figure : Figure) : figure.grammar.KeepsBalance .standard where
  successors := by cases figure <;> decide
  predecessors := by cases figure <;> decide

/-- A figure is balanced at every depth. -/
theorem balanced_rounds (figure : Figure) (n : Nat) :
    Balanced (SymbolTable.standard.ops (figure.grammar.rounds n figure.start)) :=
  figure.keepsBalance.balanced_rounds n figure.balanced_start

/-- The first generation of the first plant. -/
theorem rounds_one_tree1 :
    tree1.grammar.rounds 1 tree1.grammar.start = "F[+F]F[-F]F".toList := by
  -- The start word is a single symbol, so one round is its replacement.
  refine (Grammar.rounds_one_singleton _ 'F').trans ?_
  rw [Grammar.replace_eq_find?]
  rfl

/-- A figure is drawn at every depth, once the settings are in order. -/
theorem interpret_rounds (figure : Figure) (n : Nat) {setup : Setup}
    (valid : setup.validate = .ok ()) :
    (Plotter.ofSetup setup).interpret figure.grammar (figure.grammar.rounds n figure.start) =
      { events := [.interpreted (figure.grammar.rounds n figure.start).length
          ((Plotter.ofSetup setup).walk figure.grammar.angle
            (figure.grammar.rounds n figure.start)).path.size]
        outcome := .ok ((Plotter.ofSetup setup).walk figure.grammar.angle
          (figure.grammar.rounds n figure.start)).path } := by
  -- Expansions of a figure are balanced under the standard table, so that nothing is skipped.
  have balanced : Balanced
      ((Plotter.ofSetup setup).table.ops (figure.grammar.rounds n figure.start)) :=
    figure.balanced_rounds n
  have settled : (Plotter.ofSetup setup).setup.validate = .ok () := valid
  exact Plotter.interpret_of_balanced settled balanced figure.grammar

end Figure

namespace Request

variable {r : Request} {figure : Figure}

/-- A request for a name that no figure has is refused without any event. -/
theorem render_of_unknown (unknown : ∀ figure : Figure, figure.name ≠ r.figureName) :
    r.render = Run.fail (.unknownFigure r.figureName) := by
  rw [render, Request.figure, Figure.ofName?_of_ne unknown, Run.lift_error, Run.fail_bind]

/-- A request for a figure goes on with the check of the settings, and then with the expansion. -/
theorem render_of_name (named : figure.name = r.figureName) :
    r.render = (do
      Run.lift r.setup.validate
      let word ← figure.grammar.expandBounded r.depth r.maxSymbols
      let path ← (Plotter.ofSetup r.setup).interpret figure.grammar word
      Run.report [.rendered figure r.depth word.length path.size]
      return { figure, symbolCount := word.length, path }) := by
  rw [render, Request.figure, ← named, Figure.ofName?_name, Run.lift_ok, Run.ok_bind]

/-- Settings that are not in order are refused before anything is expanded. -/
theorem render_of_invalid (named : figure.name = r.figureName) {fault : Fault}
    (invalid : r.setup.validate = .error fault) : r.render = Run.fail fault := by
  rw [render_of_name named, invalid, Run.lift_error, Run.fail_bind]

/-- A negative depth is refused once the settings are in order. -/
theorem render_of_neg (named : figure.name = r.figureName) (valid : r.setup.validate = .ok ())
    (negative : r.depth < 0) : r.render = Run.fail (.invalidDepth r.depth) := by
  -- The guard refuses before any symbol is rewritten.
  rw [render_of_name named, valid, Run.lift_ok, Run.ok_bind,
    figure.grammar.expandBounded_of_neg negative, Run.fail_bind]

/-- The expansion that a request for a figure asks for, if its depth is not negative. -/
def word (r : Request) (figure : Figure) : Word :=
  figure.grammar.rounds r.depth.toInt.toNat figure.grammar.start

/-- The drawing of that expansion, with the settings of the request. -/
def path (r : Request) (figure : Figure) : Path :=
  ((Plotter.ofSetup r.setup).walk figure.grammar.angle (r.word figure)).path

/-- An expansion above the limit is refused with a report. -/
theorem render_of_oversized (named : figure.name = r.figureName)
    (valid : r.setup.validate = .ok ()) (natural : ¬r.depth < 0)
    (long : r.maxSymbols < Count.clamp (r.word figure).length) :
    r.render =
      { events := [.oversized r.depth (Count.clamp (r.word figure).length) r.maxSymbols]
        outcome := .error (.tooLarge (Count.clamp (r.word figure).length) r.maxSymbols) } := by
  -- The refused expansion has made its report already, and nothing is drawn after it.
  have refused := figure.grammar.expandBounded_of_nonneg natural r.maxSymbols
  rw [if_pos (by exact long)] at refused
  rw [render_of_name named, valid, Run.lift_ok, Run.ok_bind, refused, Run.mk_error_bind]
  rfl

/-- A drawing is made of every expansion within the limit, since the figures are balanced. -/
theorem interpret_word (valid : r.setup.validate = .ok ()) :
    (Plotter.ofSetup r.setup).interpret figure.grammar (r.word figure) =
      { events := [.interpreted (r.word figure).length (r.path figure).size]
        outcome := .ok (r.path figure) } :=
  figure.interpret_rounds r.depth.toInt.toNat valid

/-- Every other request is drawn, with one report each of its expansion, its walk and itself. -/
theorem render_of_fitting (named : figure.name = r.figureName)
    (valid : r.setup.validate = .ok ()) (natural : ¬r.depth < 0)
    (short : ¬r.maxSymbols < Count.clamp (r.word figure).length) :
    r.render =
      { events := [.expanded r.depth figure.grammar.start.length (r.word figure).length,
          .interpreted (r.word figure).length (r.path figure).size,
          .rendered figure r.depth (r.word figure).length (r.path figure).size]
        outcome := .ok {
          figure, symbolCount := (r.word figure).length, path := r.path figure } } := by
  -- The reports of the expansion, of the walk and of the request follow one another.
  have expanded := figure.grammar.expandBounded_of_nonneg natural r.maxSymbols
  rw [if_neg (by exact short), figure.grammar.expand_of_nonneg natural] at expanded
  have drawn : (Plotter.ofSetup r.setup).interpret figure.grammar (r.word figure) = _ :=
    interpret_word valid
  rw [word] at drawn
  rw [render_of_name named, valid, Run.lift_ok, Run.ok_bind, expanded, Run.mk_ok_bind, drawn,
    Run.mk_ok_bind]
  rfl

/-- With a known name, a request is checked in this order, and nothing else refuses it. -/
private theorem render_of_named (named : figure.name = r.figureName) :
    if r.stepSize.isFinite = false ∨ r.stepSize ≤ 0 then
      r.render.outcome = .error (.badStep r.stepSize)
    else if r.origin.x.isFinite = false ∨ r.origin.y.isFinite = false then
      r.render.outcome = .error (.badOrigin r.origin)
    else if r.heading.isFinite = false then
      r.render.outcome = .error (.badHeading r.heading)
    else if r.depth < 0 then
      r.render.outcome = .error (.invalidDepth r.depth)
    else ∃ word, (figure.grammar.expand r.depth).outcome = .ok word ∧
      if r.maxSymbols.toNat < min word.length (2 ^ 64 - 1) then
        ∃ projected, projected.toNat = min word.length (2 ^ 64 - 1) ∧
          r.render.outcome = .error (.tooLarge projected r.maxSymbols)
      else ∃ path,
        (interpret figure.grammar word r.origin r.heading r.stepSize).outcome = .ok path ∧
          r.render.outcome = .ok { figure, symbolCount := word.length, path } := by
  -- A check that fails ends the request, and one that holds leaves it to the next one.
  have checks := r.setup.validate_eq
  split
  · rename_i badStep
    rw [if_pos (by exact badStep)] at checks
    rw [render_of_invalid named checks]
    rfl
  rename_i goodStep
  rw [if_neg (by exact goodStep)] at checks
  split
  · rename_i badOrigin
    rw [if_pos (by exact badOrigin)] at checks
    rw [render_of_invalid named checks]
    rfl
  rename_i goodOrigin
  rw [if_neg (by exact goodOrigin)] at checks
  split
  · rename_i badHeading
    rw [if_pos (by exact badHeading)] at checks
    rw [render_of_invalid named checks]
    rfl
  rename_i goodHeading
  rw [if_neg (by exact goodHeading)] at checks
  split
  · rename_i negative
    rw [render_of_neg named checks negative]
    rfl
  rename_i natural
  -- From here on the settings are in order, and only the length can still be refused.
  have size : (Count.clamp (r.word figure).length).toNat =
      min (r.word figure).length (2 ^ 64 - 1) := Count.toNat_clamp _
  refine ⟨r.word figure, by rw [figure.grammar.expand_of_nonneg natural]; rfl, ?_⟩
  rw [← size]
  split
  -- Too long: the refusal names both numbers.
  · rename_i long
    exact ⟨_, rfl, by rw [render_of_oversized named checks natural long]⟩
  -- Short enough: the walk of the expansion is drawn.
  · rename_i short
    refine ⟨r.path figure, ?_, by rw [render_of_fitting named checks natural short]⟩
    exact congrArg Run.outcome (interpret_word checks)

/-- A request is refused by one of its own checks and for no other reason. -/
theorem fault_of_render {fault : Fault} (refused : r.render.outcome = .error fault) :
    fault = .unknownFigure r.figureName ∨ fault = .badStep r.stepSize ∨
      fault = .badOrigin r.origin ∨ fault = .badHeading r.heading ∨
      fault = .invalidDepth r.depth ∨ ∃ projected, fault = .tooLarge projected r.maxSymbols := by
  -- Every ending of a request is known, and each but the last names the check that failed.
  by_cases known : ∃ figure : Figure, figure.name = r.figureName
  · obtain ⟨figure, named⟩ := known
    have judged := render_of_named named
    simp only [refused] at judged
    split_ifs at judged
    · exact .inr (.inl (Except.error.inj judged))
    · exact .inr (.inr (.inl (Except.error.inj judged)))
    · exact .inr (.inr (.inr (.inl (Except.error.inj judged))))
    · exact .inr (.inr (.inr (.inr (.inl (Except.error.inj judged)))))
    -- Past the settings and the depth only the length can be refused.
    · obtain ⟨word, _, ending⟩ := judged
      split_ifs at ending
      · obtain ⟨projected, _, same⟩ := ending
        exact .inr (.inr (.inr (.inr (.inr ⟨projected, Except.error.inj same⟩))))
      · obtain ⟨path, _, impossible⟩ := ending
        exact absurd impossible (by simp)
  -- Without a figure the name is what is refused.
  · have unknown : ∀ figure : Figure, figure.name ≠ r.figureName := not_exists.1 known
    rw [render_of_unknown unknown] at refused
    exact .inl (Except.error.inj refused).symm

/--
The first check that a request fails decides its fault, and a request that fails none is drawn.

The checks are, in this order, the name, the step, the origin, the heading, the depth and the
length of the expansion. The drawing is the one that expansion and interpretation give by
themselves, so no request is ever refused for an unmatched return or for a grammar.
-/
theorem render_outcome (r : Request) :
    ((∀ figure : Figure, figure.name ≠ r.figureName) →
      r.render.outcome = .error (.unknownFigure r.figureName)) ∧
    (∀ figure : Figure, figure.name = r.figureName →
      if r.stepSize.isFinite = false ∨ r.stepSize ≤ 0 then
        r.render.outcome = .error (.badStep r.stepSize)
      else if r.origin.x.isFinite = false ∨ r.origin.y.isFinite = false then
        r.render.outcome = .error (.badOrigin r.origin)
      else if r.heading.isFinite = false then
        r.render.outcome = .error (.badHeading r.heading)
      else if r.depth < 0 then
        r.render.outcome = .error (.invalidDepth r.depth)
      else ∃ word, (figure.grammar.expand r.depth).outcome = .ok word ∧
        if r.maxSymbols.toNat < min word.length (2 ^ 64 - 1) then
          ∃ projected, projected.toNat = min word.length (2 ^ 64 - 1) ∧
            r.render.outcome = .error (.tooLarge projected r.maxSymbols)
        else ∃ path,
          (interpret figure.grammar word r.origin r.heading r.stepSize).outcome = .ok path ∧
            r.render.outcome = .ok { figure, symbolCount := word.length, path }) ∧
    (∀ index, r.render.outcome ≠ .error (.unmatchedPop index)) ∧
    (∀ cause, r.render.outcome ≠ .error (.grammar cause)) := by
  -- Unmatched returns and grammars are not among the faults that a check can name.
  refine ⟨fun unknown => ?_, fun figure named => render_of_named named, ?_, ?_⟩
  · rw [render_of_unknown unknown]
    rfl
  · intro index refused
    simpa using fault_of_render refused
  · intro cause refused
    simpa using fault_of_render refused

end Request

end Fractal
