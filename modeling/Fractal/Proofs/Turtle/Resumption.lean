import Fractal.Proofs.Turtle.UnmatchedReturns

/-!
Drawings cut in two.

The second part is drawn by a turtle that is set down where the first part ended, and knows nothing
of the poses saved there. Main statement: the parts make up the whole, unless the second part takes
back a pose that the first one saved.
-/

namespace Fractal

/-- A walk that skips no return saves a pose for each of them before it. -/
theorem Walker.enough_of_skipped_nil {σ π : Type} {gait : Gait σ π} {pose : σ} {ops : List Op}
    (silent : ((start pose).walk gait ops).skipped = []) : Op.Enough 0 ops := by
  -- A first position in deficit would be among the returns that were skipped.
  rcases Op.deficit_cases ops with none | ⟨index, first⟩
  · exact Op.enough_zero_iff.2 none
  · have head := head?_skipped_of_first_deficit gait pose first
    rw [silent] at head
    cases head

namespace Plotter

/-- The same turtle, set down in another pose. -/
def setDown (p : Plotter) (pose : Pose) : Plotter :=
  { p with setup := { p.setup with origin := pose.position, heading := pose.heading } }

section Cut

variable (p : Plotter) {angle : Float} {before after : Word}

/-- The second part of a walk, told by a turtle that is set down where the first part ends. -/
def follow (angle : Float) (before after : Word) : Walker Pose Point :=
  (p.setDown (p.walk angle before).here).walk angle after

/-- The second part stands on the first, if it takes no pose from it or finds none there. -/
theorem walk_append_eq_follow
    (apart : (p.follow angle before after).skipped = [] ∨ (p.walk angle before).saved = []) :
    p.walk angle (before ++ after) =
      (p.follow angle before after).atop (p.walk angle before) := by
  have enters : p.walk angle before =
      (Walker.start (p.walk angle before).here).atop (p.walk angle before) :=
    (Walker.start_atop _).symm
  rw [walk_append, enters]
  rcases apart with silent | closed
  -- Every return of the second part finds a pose of its own.
  · exact Walker.walk_atop_of_enough _ _ (Walker.enough_of_skipped_nil silent)
  -- No return of the second part finds a pose of the first.
  · exact Walker.walk_atop_of_bottom _ _ closed _ _

/-- The path over both parts is that of the first, continued by that of the second. -/
theorem path_append
    (apart : (p.follow angle before after).skipped = [] ∨ (p.walk angle before).saved = []) :
    (p.walk angle (before ++ after)).path =
      { segments := (p.walk angle before).path.segments ++
          (p.follow angle before after).path.segments
        final := (p.follow angle before after).path.final } := by
  rw [p.walk_append_eq_follow apart, Walker.path, Walker.segments_atop]
  rfl

/-- The returns skipped in the second part are skipped so many symbols later in the whole. -/
theorem skipped_append
    (apart : (p.follow angle before after).skipped = [] ∨ (p.walk angle before).saved = []) :
    (p.walk angle (before ++ after)).skipped =
      (p.walk angle before).skipped ++
        (p.follow angle before after).skipped.map (before.length + ·) := by
  rw [p.walk_append_eq_follow apart, Walker.skipped_atop, read_walk]

end Cut

/-- The first fault in a word is found again in every longer word that begins with it. -/
theorem interpret_append_of_error {p : Plotter} {g : Grammar} {before : Word} {fault : Fault}
    (refused : (p.interpret g before).outcome = .error fault) (after : Word) :
    (p.interpret g (before ++ after)).outcome = .error fault := by
  cases checked : p.setup.validate with
  -- The settings are refused before either word is read.
  | error cause =>
    rw [interpret_of_invalid checked] at refused ⊢
    exact refused
  | ok _ =>
    rw [outcome_of_valid checked] at refused ⊢
    rw [skipped_walk_append]
    -- Only a skipped return is refused, and the first one stays the first in the longer word.
    cases policy : p.setup.policy with
    | lenient =>
      rw [policy, PopPolicy.judge_lenient] at refused
      cases refused
    | strict =>
      rw [policy] at refused
      cases skipped : (p.walk g.angle before).skipped with
      | nil =>
        rw [skipped, PopPolicy.judge_nil] at refused
        cases refused
      | cons index _ =>
        rw [skipped] at refused
        exact refused

/-- A turtle that is set down in a pose of finite numbers is in order if it was so before. -/
theorem validate_setDown {p : Plotter} {pose : Pose} (valid : p.setup.validate = .ok ())
    (position : pose.position.isFinite = true) (heading : pose.heading.isFinite = true) :
    (p.setDown pose).setup.validate = .ok () := by
  -- The step was checked already, and the pose is finite by assumption.
  have positive : PositiveFinite p.setup.step := by
    by_contra bad
    rw [Setup.validate, if_pos bad] at valid
    cases valid
  simp [setDown, Setup.validate, positive, position, heading]

/-- A word is refused at a position exactly if strict settings in order skip it there first. -/
theorem interpret_eq_unmatched_iff {p : Plotter} {g : Grammar} {word : Word} {index : Nat} :
    (p.interpret g word).outcome = .error (.unmatchedPop index) ↔
      p.setup.validate = .ok () ∧ p.setup.policy = .strict ∧
        (p.walk g.angle word).skipped.head? = some index := by
  cases checked : p.setup.validate with
  | error fault =>
    -- The checks of the settings have faults of their own.
    have other : fault ≠ .unmatchedPop index := by
      rintro rfl
      rw [Setup.validate_eq] at checked
      split_ifs at checked <;> cases checked
    rw [interpret_of_invalid checked]
    simpa [Run.fail] using other
  | ok _ =>
    rw [outcome_of_valid checked]
    cases policy : p.setup.policy with
    -- The lenient policy refuses nothing, and the strict one the first that was skipped.
    | lenient => simp [Except.map]
    | strict => cases skipped : (p.walk g.angle word).skipped <;> simp [Except.map]

/-- Strict settings draw a word only if it has no return to skip. -/
theorem skipped_of_drawn {p : Plotter} {g : Grammar} {word : Word} {path : Path}
    (strict : p.setup.policy = .strict) (drawn : (p.interpret g word).outcome = .ok path) :
    (p.walk g.angle word).skipped = [] := by
  obtain ⟨_, allowed, _⟩ := interpret_eq_ok_iff.1 drawn
  rw [strict] at allowed
  -- Anything that was skipped would have been refused.
  cases skipped : (p.walk g.angle word).skipped with
  | nil => rfl
  | cons index _ =>
    rw [skipped, PopPolicy.judge_strict_cons] at allowed
    cases allowed

/-- Settings in order draw a word, or refuse it for an unmatched return. -/
theorem interpret_cases {p : Plotter} (valid : p.setup.validate = .ok ()) (g : Grammar)
    (word : Word) :
    (∃ path, (p.interpret g word).outcome = .ok path) ∨
      ∃ index, (p.interpret g word).outcome = .error (.unmatchedPop index) := by
  rw [outcome_of_valid valid]
  cases p.setup.policy with
  | lenient => exact .inl ⟨_, by rw [PopPolicy.judge_lenient]; rfl⟩
  -- Either nothing was skipped, or there is a first.
  | strict =>
    cases (p.walk g.angle word).skipped with
    | nil => exact .inl ⟨_, rfl⟩
    | cons index _ => exact .inr ⟨index, rfl⟩

/--
A drawing may be interrupted after any part of its word, and resumed from the pose reached there.

A fault in the first part is the fault of the whole. If both parts are drawn, the whole consists of
their segments and ends where the second part does. Under strict settings this holds wherever the
first part ends, and under lenient ones where it leaves no branch open. In that case an unmatched
return of the second part is one of the whole, so many symbols later.
-/
theorem interpret_resumed (p : Plotter) (g : Grammar) (before after : Word) :
    let whole := (p.interpret g (before ++ after)).outcome
    (∀ fault, (p.interpret g before).outcome = .error fault → whole = .error fault) ∧
    ∀ first, (p.interpret g before).outcome = .ok first →
      let rest := ((p.setDown first.final).interpret g after).outcome
      let closed := (p.walk g.angle before).saved = []
      (first.final.position.isFinite → first.final.heading.isFinite →
        (∃ second, rest = .ok second) ∨ ∃ index, rest = .error (.unmatchedPop index)) ∧
      (∀ second, rest = .ok second → p.setup.policy = .strict ∨ closed →
        whole = .ok {
          segments := first.segments ++ second.segments, final := second.final }) ∧
      ∀ index, rest = .error (.unmatchedPop index) → closed →
        whole = .error (.unmatchedPop (before.length + index)) := by
  intro whole
  refine ⟨fun fault refused => interpret_append_of_error refused after, fun first drawn => ?_⟩
  intro rest closed
  have silent := fun strict => skipped_of_drawn strict drawn
  obtain ⟨valid, allowed, rfl⟩ := interpret_eq_ok_iff.1 drawn
  refine ⟨fun position heading => ?_, fun second resumed apart => ?_, fun index refused level => ?_⟩
  -- A finite pose makes sound settings, so that only a return can be refused.
  · exact interpret_cases (validate_setDown valid position heading) g after
  · have silentToo : p.setup.policy = .strict → (p.follow g.angle before after).skipped = [] :=
      fun strict => skipped_of_drawn (p := p.setDown _) strict resumed
    obtain ⟨_, _, rfl⟩ := interpret_eq_ok_iff.1 resumed
    -- Strict settings have drawn the second part, so it takes no pose from the first.
    have separate := apart.imp_left silentToo
    refine interpret_eq_ok_iff.2 ⟨valid, ?_, p.path_append separate⟩
    -- The lenient policy accepts the whole word anyway, the strict one because nothing is skipped.
    cases policy : p.setup.policy with
    | lenient => exact PopPolicy.judge_lenient _
    | strict =>
      rw [p.skipped_append separate, silent policy, silentToo policy, List.map_nil,
        List.append_nil, PopPolicy.judge_nil]
  · obtain ⟨_, strict, head⟩ := interpret_eq_unmatched_iff.1 refused
    -- The first part has nothing to skip, so the first return that is skipped lies in the second.
    refine interpret_eq_unmatched_iff.2 ⟨valid, strict, ?_⟩
    rw [p.skipped_append (.inr level), silent strict, List.nil_append, List.head?_map]
    exact congrArg (Option.map (before.length + ·)) head

/-- A drawing that is interrupted in a branch is resumed without the pose that was saved there. -/
theorem interpret_resumed_inside_branch :
    let p := Plotter.standard
    let g := Figure.tree1.grammar
    ∃ first second, (p.interpret g "[+".toList).outcome = .ok first ∧
      (p.walk g.angle "[+".toList).saved = [.home] ∧
      ((p.setDown first.final).interpret g "[F]-F".toList).outcome = .ok second ∧
      (p.interpret g "[+[F]-F".toList).outcome = .ok {
        segments := first.segments ++ second.segments, final := second.final } := by
  have valid : Setup.standard.validate = .ok () := by rfl
  -- The interruption comes in the middle of a branch, at a finite pose.
  have finite : (Plotter.standard.walk 25.7 "[+".toList).here.position.isFinite = true ∧
      (Plotter.standard.walk 25.7 "[+".toList).here.heading.isFinite = true := by decide
  intro p g
  have drawn : (p.interpret g "[+".toList).outcome = .ok (p.walk g.angle "[+".toList).path :=
    interpret_eq_ok_iff.2 ⟨valid, by rfl, rfl⟩
  obtain ⟨_, resumes⟩ := p.interpret_resumed g "[+".toList "[F]-F".toList
  obtain ⟨judged, joined, _⟩ := resumes _ drawn
  rcases judged finite.1 finite.2 with ⟨second, resumed⟩ | ⟨index, refused⟩
  · exact ⟨_, second, drawn, by rfl, resumed, joined second resumed (.inl rfl)⟩
  -- The word after the interruption closes its only branch.
  · cases (interpret_eq_unmatched_iff.1 refused).2.2

end Plotter

end Fractal
