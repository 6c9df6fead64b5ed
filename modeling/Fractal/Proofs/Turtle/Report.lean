import Fractal.Proofs.Turtle.Continuation
import Fractal.Proofs.Turtle.Repair

/-!
What an interpretation reports, told by matching saves and returns.

A return is stray or matches a save, and only a matching one takes a saved pose away. Main
statement: a drawing is reported with its stray returns, the number of saves that no return matches,
and its size, in this order, and a refusal is not reported at all.
-/

namespace Fractal

namespace Op

/-- The positions of the stray returns before some position, in order. -/
def strays (ops : List Op) (now : Nat) : List Nat :=
  (List.range now).filter fun index => Stray ops index

/-- The positions before some position of the returns that match a save, in order. -/
def restores (ops : List Op) (now : Nat) : List Nat :=
  (List.range now).filter fun back => ∃ save < back, Matched ops save back

/-- A stray return is at one position more, and nothing else is. -/
theorem strays_succ (ops : List Op) (now : Nat) :
    strays ops (now + 1) = strays ops now ++ if Stray ops now then [now] else [] := by
  simp only [strays, filter_range_succ, decide_eq_true_eq]

/-- A return that matches a save is at one position more, and nothing else is. -/
theorem restores_succ (ops : List Op) (now : Nat) :
    restores ops (now + 1) =
      restores ops now ++ if ∃ save < now, Matched ops save now then [now] else [] := by
  simp only [restores, filter_range_succ, decide_eq_true_eq]

/-- A return matches a save exactly if some saved pose is left. -/
theorem Opened.matched_iff {ops : List Op} {saves : List Nat} {now : Nat}
    (opened : Opened ops saves now) (returns : ops[now]? = some pop) :
    (∃ save < now, Matched ops save now) ↔ saves ≠ [] := by
  cases saves with
  | nil =>
    -- No branch is open, so everything before is settled and pairs with nothing here.
    refine iff_of_false ?_ (not_not.2 rfl)
    rintro ⟨save, _, pair⟩
    exact Settled.not_matched opened save pair
  | cons save rest =>
    -- The innermost open save is inside its branch up to here, where it returns.
    have pair : Matched ops save now := matched_iff_inside.2 ⟨opened.1, returns⟩
    exact iff_of_true ⟨save, pair.before, pair⟩ (List.cons_ne_nil _ _)

end Op

namespace Walker

variable {σ π : Type}

/-- A return matches a save exactly if it finds a saved pose. -/
theorem Follows.matched_iff {gait : Gait σ π} {start : σ} {ops : List Op} {now : Nat}
    {w : Walker σ π} (follows : Follows gait start ops now w) (returns : ops[now]? = some .pop) :
    (∃ save < now, Op.Matched ops save now) ↔ w.saved ≠ [] := by
  obtain ⟨saves, opened, stack⟩ := follows.saved
  -- The saved poses are those of the open places, so that both are empty together.
  rw [opened.matched_iff returns, stack, ne_eq, ne_eq, List.map_eq_nil_iff]

/-- A walk whose notes and saved poses are accounted for by matching saves and returns. -/
structure Accounted (ops : List Op) (now : Nat) (w : Walker σ π) : Prop where
  /-- The notes are the positions of the stray returns so far. -/
  skipped : w.skipped = Op.strays ops now
  /-- Every save so far is left, or was matched by a return. -/
  saved : w.saved.length + (Op.restores ops now).length = (ops.take now).count .push
  /-- The walk has come to the position. -/
  read : w.read = now

namespace Accounted

variable {gait : Gait σ π} {start : σ} {ops : List Op} {now : Nat} {w : Walker σ π}

/-- A return that finds nothing is stray, and is noted at the position where it stands. -/
theorem step_pop_nil (accounted : Accounted ops now w) (follows : Follows gait start ops now w)
    (here : ops[now]? = some .pop) (stack : w.saved = []) :
    Accounted ops (now + 1) (w.step gait .pop) := by
  have stray : Op.Stray ops now := (follows.stray_iff here).2 stack
  have noMatch : ¬∃ save < now, Op.Matched ops save now := fun some =>
    (follows.matched_iff here).1 some stack
  rw [Walker.step_pop_nil gait stack]
  refine ⟨?_, ?_, congrArg (· + 1) accounted.read⟩
  -- One more is skipped, and it is the return that was just read.
  · rw [Op.strays_succ, if_pos stray, ← accounted.skipped, ← accounted.read]
    exact List.reverse_cons
  -- Nothing is taken back, and a return is no save.
  · rw [Op.restores_succ, if_neg noMatch, List.append_nil, List.take_add_one, here]
    simpa using accounted.saved

/-- Any other return takes one pose away, and is one more that matches. -/
theorem step_pop_cons (accounted : Accounted ops now w) (follows : Follows gait start ops now w)
    (here : ops[now]? = some .pop) {pose : σ} {rest : List σ} (stack : w.saved = pose :: rest) :
    Accounted ops (now + 1) (w.step gait .pop) := by
  have found : w.saved ≠ [] := by rw [stack]; exact List.cons_ne_nil _ _
  have noStray : ¬Op.Stray ops now := fun stray => found ((follows.stray_iff here).1 stray)
  have saved := accounted.saved
  rw [stack, List.length_cons] at saved
  rw [Walker.step_pop_cons gait stack]
  refine ⟨?_, ?_, congrArg (· + 1) accounted.read⟩
  -- This return has a partner, so none is skipped.
  · rw [Op.strays_succ, if_neg noStray, List.append_nil]
    exact accounted.skipped
  -- The stack loses what the restoring returns gain.
  · rw [Op.restores_succ, if_pos ((follows.matched_iff here).2 found), List.take_add_one, here,
      List.length_append, List.count_append, ← saved]
    simp
    omega

/-- Every other operation is neither stray nor a match, and only a save adds a pose. -/
theorem step_of_ne (accounted : Accounted ops now w) {op : Op} (here : ops[now]? = some op)
    (other : op ≠ .pop) : Accounted ops (now + 1) (w.step gait op) := by
  have noStray : ¬Op.Stray ops now := fun stray =>
    other (Option.some.inj (here.symm.trans stray.returns))
  have noMatch : ¬∃ save < now, Op.Matched ops save now := fun ⟨_, _, pair⟩ =>
    other (Option.some.inj (here.symm.trans pair.returns))
  -- Only returns are noted, and only saves put something on the stack.
  have silent : (w.step gait op).unmatched = w.unmatched :=
    unmatched_step fun returns => absurd returns other
  have grown : (w.step gait op).saved.length = w.saved.length + [op].count .push := by
    cases op <;> simp [Walker.step, act] at other ⊢
  refine ⟨?_, ?_, congrArg (· + 1) accounted.read⟩
  · rw [Op.strays_succ, if_neg noStray, List.append_nil, Walker.skipped, silent]
    exact accounted.skipped
  -- A save counts on both sides, and any other op on neither.
  · rw [Op.restores_succ, if_neg noMatch, List.append_nil, grown, List.take_add_one, here,
      List.count_append, ← accounted.saved]
    simp
    omega

/-- The account of a walk stays right with every operation. -/
theorem step (accounted : Accounted ops now w) (follows : Follows gait start ops now w) {op : Op}
    (here : ops[now]? = some op) : Accounted ops (now + 1) (w.step gait op) := by
  -- A return acts by what is on the stack, and everything else regardless of it.
  by_cases returns : op = .pop
  · subst returns
    cases stack : w.saved with
    | nil => exact accounted.step_pop_nil follows here stack
    | cons pose rest => exact accounted.step_pop_cons follows here stack
  · exact accounted.step_of_ne here returns

end Accounted

/-- A whole walk notes its stray returns, and keeps a pose for every save that none matches. -/
theorem walk_accounted (gait : Gait σ π) (pose : σ) (ops : List Op) :
    Accounted ops ops.length ((start pose).walk gait ops) := by
  -- The account is kept one operation at a time, along with what the stack holds.
  refine walk_induction (Accounted ops) ⟨rfl, rfl, rfl⟩ fun now op here accounted => ?_
  have before : now ≤ ops.length := Nat.le_of_lt (List.getElem?_eq_some_iff.1 here).1
  exact accounted.step (Follows.walk_take gait pose ops now before) here

end Walker

/-- A return is stray exactly if it matches no save. -/
theorem Op.stray_iff_not_matched {ops : List Op} {now : Nat} (returns : ops[now]? = some pop) :
    Stray ops now ↔ ¬∃ save < now, Matched ops save now := by
  -- Both are told by whether any walk over the list has a pose left there.
  have within : now ≤ ops.length := Nat.le_of_lt (List.getElem?_eq_some_iff.1 returns).1
  let gait : Gait Unit Unit := ⟨id, id, id, id⟩
  have follows := Walker.Follows.walk_take gait () ops now within
  rw [follows.stray_iff returns, follows.matched_iff returns, not_not]

namespace Op

/-- The stray returns are those of all returns that match no save. -/
theorem mem_strays_iff {ops : List Op} {index : Nat} :
    index ∈ strays ops ops.length ↔ ops[index]? = some pop ∧ index ∉ restores ops ops.length := by
  simp only [strays, restores, List.mem_filter, List.mem_range, decide_eq_true_eq, not_and]
  constructor
  -- A stray return restores nothing, though it lies among the ops that were read.
  · rintro ⟨_, stray⟩
    exact ⟨stray.returns, fun _ => (stray_iff_not_matched stray.returns).1 stray⟩
  -- A return within the list that restores nothing has no partner.
  · rintro ⟨returns, unmatched⟩
    have within := (List.getElem?_eq_some_iff.1 returns).1
    exact ⟨within, (stray_iff_not_matched returns).2 (unmatched within)⟩

end Op

namespace Plotter

/-- The walk over a word is accounted for by the saves and returns of its symbols. -/
theorem walk_accounted (p : Plotter) (angle : Float) (word : Word) :
    Walker.Accounted (p.table.ops word) word.length (p.walk angle word) := by
  have whole := Walker.walk_accounted (Pose.gait p.setup.step angle) p.setup.pose (p.table.ops word)
  rwa [SymbolTable.length_ops] at whole

/-- Every save of a word is left at its end, or was matched by a return. -/
theorem length_saved_add_restores (p : Plotter) (angle : Float) (word : Word) :
    (p.walk angle word).saved.length + (Op.restores (p.table.ops word) word.length).length =
      (p.table.ops word).count .push := by
  have saved := (p.walk_accounted angle word).saved
  rwa [List.take_of_length_le (Nat.le_of_eq (p.table.length_ops word))] at saved

/-- How many branches a word leaves open: its saves without those that a return matches. -/
def unclosed (p : Plotter) (word : Word) : Nat :=
  (p.table.ops word).count .push - (Op.restores (p.table.ops word) word.length).length

/-- A walk ends with one saved pose for every branch that its word leaves open. -/
theorem length_saved_walk (p : Plotter) (angle : Float) (word : Word) :
    (p.walk angle word).saved.length = p.unclosed word := by
  -- What was saved and not taken back is still there.
  rw [unclosed, ← p.length_saved_add_restores angle word, Nat.add_sub_cancel]

/-- A walk reports its stray returns, the branches that it leaves open, and its size. -/
theorem events_walk (p : Plotter) (angle : Float) (word : Word) :
    (p.walk angle word).events =
      (Op.strays (p.table.ops word) word.length).map .unmatchedPop ++
        (if 0 < p.unclosed word then [.openBranches (p.unclosed word)] else []) ++
        [.interpreted word.length ((p.table.ops word).count .draw)] := by
  have size : (p.walk angle word).drawn.length = (p.table.ops word).count .draw := by
    rw [walk, Walker.length_drawn_walk]
    exact Nat.zero_add _
  have opened := p.length_saved_walk angle word
  -- The number of symbols, of strokes and of open branches are those of the account.
  rw [Walker.events, (p.walk_accounted angle word).skipped, size, read_walk, ← opened]
  -- Branches are reported exactly if there are any.
  cases (p.walk angle word).saved <;> rfl

/-- A refused word is not reported at all. -/
theorem events_of_error {p : Plotter} {g : Grammar} {word : Word} {fault : Fault}
    (refused : (p.interpret g word).outcome = .error fault) : (p.interpret g word).events = [] := by
  -- The checks of the settings and of the policy both come before the report.
  cases checked : p.setup.validate with
  | error => rw [interpret_of_invalid checked g word]; rfl
  | ok _ =>
    cases judged : p.setup.policy.judge (p.walk g.angle word).skipped with
    | error => rw [interpret_of_refused checked judged]; rfl
    | ok _ =>
      rw [interpret_of_allowed checked judged] at refused
      cases refused

/-- Only lenient settings draw a word with a stray return. -/
theorem policy_of_drawn {p : Plotter} {g : Grammar} {word : Word} {path : Path}
    (drawn : (p.interpret g word).outcome = .ok path)
    (stray : Op.strays (p.table.ops word) word.length ≠ []) : p.setup.policy = .lenient := by
  obtain ⟨_, allowed, _⟩ := interpret_eq_ok_iff.1 drawn
  rw [(p.walk_accounted g.angle word).skipped] at allowed
  obtain ⟨first, later, met⟩ := List.exists_cons_of_ne_nil stray
  -- A strict policy would have refused at the first of the strays.
  cases policy : p.setup.policy with
  | lenient => rfl
  | strict =>
    rw [policy, met, PopPolicy.judge_strict_cons] at allowed
    cases allowed

/--
A drawing reports exactly what happened to it, and a refused word reports nothing.

First every stray return is warned of, in order and with its position, which happens under lenient
settings only. The branches that are left open follow, if there are any: as many as there are saves
without those that a return matches. The last event says how many symbols were read and how many of
them draw. Every return is stray or matches a save, and never both.
-/
theorem interpret_events (p : Plotter) (g : Grammar) (word : Word) :
    let run := p.interpret g word
    let ops := p.table.ops word
    let strays := Op.strays ops word.length
    let restores := Op.restores ops word.length
    let opened := ops.count .push - restores.length
    (∀ fault, run.outcome = .error fault → run.events = []) ∧
    (∀ path, run.outcome = .ok path →
      run.events = strays.map .unmatchedPop ++
        (if 0 < opened then [.openBranches opened] else []) ++
        [.interpreted word.length (ops.count .draw)] ∧
      run.events.map Event.level =
        strays.map (fun _ => .warn) ++ (if 0 < opened then [.trace] else []) ++ [.debug] ∧
      (strays ≠ [] → p.setup.policy = .lenient)) ∧
    restores.length ≤ ops.count .push ∧
    ∀ index, index ∈ strays ↔ ops[index]? = some .pop ∧ index ∉ restores := by
  intro run ops strays restores opened
  refine ⟨fun fault refused => events_of_error refused, fun path drawn => ?_, ?_, fun index => ?_⟩
  -- A run that draws passed both checks, so it reports everything that the walk noted.
  · obtain ⟨valid, allowed, _⟩ := interpret_eq_ok_iff.1 drawn
    have events : run.events = _ :=
      (congrArg Run.events (interpret_of_allowed valid allowed)).trans (p.events_walk g.angle word)
    refine ⟨events, ?_, policy_of_drawn drawn⟩
    rw [events, List.map_append, List.map_append, List.map_map]
    -- The three parts have one level each, and the middle one may be absent.
    change _ ++ (if 0 < opened then [.openBranches opened] else []).map Event.level ++ _ = _
    split_ifs <;> rfl
  -- Returns that restore take away what saves have put there.
  · exact p.length_saved_add_restores g.angle word ▸ Nat.le_add_left _ _
  -- A return is stray when it is not among those that restore.
  · have stray : index ∈ Op.strays ops ops.length ↔ _ := Op.mem_strays_iff
    rwa [SymbolTable.length_ops] at stray

/-- Two stray returns around a branch and two branches left open, drawn and refused. -/
theorem interpret_events_mixed :
    let lenient := ofSetup { Setup.standard with policy := .lenient }
    let g := Figure.tree1.grammar
    let word : Word := "F]F[+F[F]-F]]F[[".toList
    (∃ path, (lenient.interpret g word).outcome = .ok path) ∧
      (lenient.interpret g word).events =
        [.unmatchedPop 1, .unmatchedPop 12, .openBranches 2, .interpreted 16 6] ∧
      (standard.interpret g word).outcome = .error (.unmatchedPop 1) ∧
      (standard.interpret g word).events = [] := by
  have valid : Setup.standard.validate = .ok () := by rfl
  intro lenient g word
  -- The lenient run draws, and the strict one stops at the first stray return.
  have drawn : (lenient.interpret g word).outcome = .ok (lenient.walk g.angle word).path :=
    interpret_eq_ok_iff.2 ⟨valid, by rfl, rfl⟩
  have judged : standard.setup.policy.judge (standard.walk g.angle word).skipped =
      .error (.unmatchedPop 1) := by rfl
  have refused : (standard.interpret g word).outcome = .error (.unmatchedPop 1) :=
    congrArg Run.outcome (interpret_of_refused (p := standard) valid judged)
  have told := ((lenient.interpret_events g word).2.1 _ drawn).1
  refine ⟨⟨_, drawn⟩, told.trans ?_, refused, (standard.interpret_events g word).1 _ refused⟩
  -- Symbols one and twelve have no partner, symbols eight and eleven return to one.
  have strays : Op.strays (lenient.table.ops word) word.length = [1, 12] := by decide +kernel
  have restores : Op.restores (lenient.table.ops word) word.length = [8, 11] := by decide +kernel
  rw [strays, restores]
  decide

end Plotter

end Fractal
