import Fractal.Figure
import Fractal.Proofs.Turtle.Repair

/-!
Only what symbols do has a part in a drawing.

Main statement: words whose operations agree once the idle ones are left out are drawn to the same
path, or are refused at the same one of these operations. Idle symbols may stand anywhere, and what
other symbols are bound to does not matter.
-/

namespace Fractal

namespace Op

/-- The operations of a list without those that do nothing. -/
def effective (ops : List Op) : List Op :=
  ops.filter fun op => op ≠ ignore

/-- The positions of the operations that do something, in order. -/
def effectivePlaces (ops : List Op) : List Nat :=
  ops.findIdxs fun op => op ≠ ignore

/-- Every effective operation has its position. -/
theorem length_effectivePlaces (ops : List Op) :
    (effectivePlaces ops).length = (effective ops).length := by
  -- Both count the ops that do something.
  rw [effectivePlaces, effective, List.length_findIdxs, List.countP_eq_length_filter]

/-- An idle operation at the end is not effective. -/
theorem effective_concat_ignore (ops : List Op) :
    effective (ops ++ [ignore]) = effective ops ∧
      effectivePlaces (ops ++ [ignore]) = effectivePlaces ops := by
  simp [effective, effectivePlaces, List.findIdxs_append]

/-- Every other operation at the end is the last one that is effective. -/
theorem effective_concat_of_ne {op : Op} (acts : op ≠ ignore) (ops : List Op) :
    effective (ops ++ [op]) = effective ops ++ [op] ∧
      effectivePlaces (ops ++ [op]) = effectivePlaces ops ++ [ops.length] := by
  simp [effective, effectivePlaces, List.findIdxs_append, acts]

/-- Idle operations in between make no difference. -/
theorem effective_of_idle {idle : List Op} (none : ∀ op ∈ idle, op = ignore)
    (before after : List Op) :
    effective (before ++ idle ++ after) = effective (before ++ after) := by
  -- Of the idle part nothing is kept, and the filter goes through the rest as before.
  have nothing : effective idle = [] := by simpa [effective] using none
  rw [effective, effective, List.filter_append, List.filter_append, List.filter_append]
  change _ ++ effective idle ++ _ = _
  rw [nothing, List.append_nil]

/-- The effective operation of some rank, counted from zero, stands at this place of a list. -/
def Ranks (ops : List Op) (place rank : Nat) : Prop :=
  (effectivePlaces ops)[rank]? = some place

/-- Ranks stay the same when a list is continued. -/
theorem Ranks.concat {ops : List Op} {place rank : Nat} (ranks : Ranks ops place rank) (op : Op) :
    Ranks (ops ++ [op]) place rank := by
  -- What comes later takes places behind those that are given out.
  rw [Ranks, effectivePlaces, List.findIdxs_append, List.getElem?_append_left]
  · exact ranks
  · exact (List.getElem?_eq_some_iff.1 ranks).1

end Op

namespace Walker

open Op (Ranks)

variable {σ π : Type} {gait : Gait σ π}

/-- A walk over a list, and one over its effective operations alone, with the same notes by rank. -/
structure Condenses (ops : List Op) (w v : Walker σ π) : Prop where
  /-- The walks are in one pose, with the same poses saved and the same segments drawn. -/
  agrees : Agrees w v
  /-- The same unmatched returns are noted, by place in the one and by rank in the other. -/
  notes : List.Forall₂ (Ranks ops) w.unmatched v.unmatched
  /-- The one has read the whole list. -/
  read : w.read = ops.length
  /-- The other has read the effective operations. -/
  read_effective : v.read = (Op.effective ops).length

/-- Nothing is condensed to nothing. -/
theorem Condenses.start (pose : σ) :
    Condenses (σ := σ) (π := π) [] (.start pose) (.start pose) :=
  ⟨⟨rfl, rfl, rfl⟩, .nil, rfl, rfl⟩

/-- An idle operation is read in the one walk only. -/
theorem Condenses.step_ignore {ops : List Op} {w v : Walker σ π} (condenses : Condenses ops w v) :
    Condenses (ops ++ [.ignore]) (w.step gait .ignore) v := by
  obtain ⟨agrees, notes, read, readEffective⟩ := condenses
  obtain ⟨effective, places⟩ := Op.effective_concat_ignore ops
  -- Nothing moves, and only the longer walk reads on.
  refine ⟨⟨agrees.here, agrees.saved, agrees.drawn⟩, ?_, ?_, by rw [effective, readEffective]⟩
  · exact notes.imp fun _ _ ranks => ranks.concat .ignore
  · rw [List.length_append, ← read]
    rfl

/-- Any other operation is done in both walks, and if it is noted, then at the end of each. -/
theorem Condenses.step {ops : List Op} {w v : Walker σ π} (condenses : Condenses ops w v) {op : Op}
    (acts : op ≠ .ignore) : Condenses (ops ++ [op]) (w.step gait op) (v.step gait op) := by
  obtain ⟨agrees, notes, read, readEffective⟩ := condenses
  obtain ⟨effective, places⟩ := Op.effective_concat_of_ne acts ops
  -- The notes so far keep their ranks.
  have kept : List.Forall₂ (Ranks (ops ++ [op])) w.unmatched v.unmatched :=
    notes.imp fun _ _ ranks => ranks.concat op
  refine ⟨agrees.step op, ?_, ?_, ?_⟩
  · by_cases stray : op = .pop ∧ w.saved = []
    · obtain ⟨rfl, empty⟩ := stray
      -- The return is noted by both walks, where each of them stands.
      have last : Ranks (ops ++ [.pop]) w.read v.read := by
        rw [Ranks, places, read, readEffective, ← Op.length_effectivePlaces]
        exact List.getElem?_concat_length
      rw [step_pop_nil gait empty, step_pop_nil gait (agrees.saved ▸ empty)]
      exact .cons last kept
    -- Anything else is noted by neither.
    · have found : op = .pop → w.saved ≠ [] := fun returns empty => stray ⟨returns, empty⟩
      rw [unmatched_step found, unmatched_step (agrees.saved ▸ found)]
      exact kept
  · rw [List.length_append, ← read]
    rfl
  · rw [effective, List.length_append, ← readEffective]
    rfl

/-- A whole walk is condensed to that over the effective operations. -/
theorem walk_condenses (gait : Gait σ π) (pose : σ) (ops : List Op) :
    Condenses ops ((start pose).walk gait ops) ((start pose).walk gait (Op.effective ops)) := by
  -- Ranks are given from the front, so the list grows at its end.
  induction ops using List.reverseRecOn with
  | nil => exact Condenses.start pose
  | append_singleton ops op ih =>
    rw [walk_append]
    by_cases acts : op = .ignore
    -- An idle op is read by one of the walks only.
    · subst acts
      rw [(Op.effective_concat_ignore ops).1]
      exact ih.step_ignore
    -- Every other op is the last of both lists.
    · rw [(Op.effective_concat_of_ne acts ops).1, walk_append]
      exact ih.step acts

/-- Walks over lists with the same effective operations agree, and note these by the same ranks. -/
theorem walk_of_effective (gait : Gait σ π) (pose : σ) {ops others : List Op}
    (same : Op.effective ops = Op.effective others) :
    Agrees ((start pose).walk gait ops) ((start pose).walk gait others) ∧
      ∃ ranks, List.Forall₂ (Ranks ops) ((start pose).walk gait ops).skipped ranks ∧
        List.Forall₂ (Ranks others) ((start pose).walk gait others).skipped ranks := by
  -- Both walks condense to the one over the effective ops, which is thus between them.
  have first := walk_condenses gait pose ops
  have second := walk_condenses gait pose others
  rw [← same] at second
  obtain ⟨here, saved, drawn⟩ := first.agrees
  obtain ⟨here', saved', drawn'⟩ := second.agrees
  refine ⟨⟨here.trans here'.symm, saved.trans saved'.symm, drawn.trans drawn'.symm⟩,
    ((start pose).walk gait (Op.effective ops)).skipped, ?_, ?_⟩
  -- Notes are kept in reverse, on both sides.
  · exact List.forall₂_reverse_iff.2 first.notes
  · exact List.forall₂_reverse_iff.2 second.notes

end Walker

namespace Plotter

/--
Two interpretations have the same effect.

They end in the same path, or by the same fault of the settings, or at unmatched returns that are
the same one of the effective operations of their words.
-/
def SameEffect (p q : Plotter) (g h : Grammar) (word other : Word) : Prop :=
  let outcome := (p.interpret g word).outcome
  let outcome' := (q.interpret h other).outcome
  (∃ path, outcome = .ok path ∧ outcome' = .ok path) ∨
  (∃ fault, p.setup.validate = .error fault ∧ outcome = .error fault ∧ outcome' = .error fault) ∨
  ∃ index index' rank, outcome = .error (.unmatchedPop index) ∧
    outcome' = .error (.unmatchedPop index') ∧
    Op.Ranks (p.table.ops word) index rank ∧ Op.Ranks (q.table.ops other) index' rank

/-- Words with the same effective operations have the same effect under the same settings. -/
theorem sameEffect_of_effective {p q : Plotter} {g h : Grammar} {word other : Word}
    (setup : q.setup = p.setup) (angle : h.angle = g.angle)
    (same : Op.effective (p.table.ops word) = Op.effective (q.table.ops other)) :
    SameEffect p q g h word other := by
  rw [SameEffect]
  cases checked : p.setup.validate with
  -- The settings are the same, and so is the fault that is found in them.
  | error fault =>
    refine .inr (.inl ⟨fault, rfl, ?_, ?_⟩)
    · exact congrArg Run.outcome (interpret_of_invalid checked g word)
    · exact congrArg Run.outcome (interpret_of_invalid (setup ▸ checked) h other)
  | ok _ =>
    have ends := outcome_of_valid checked g word
    have ends' := outcome_of_valid (setup ▸ checked) h other
    obtain ⟨agrees, ranks, notes, notes'⟩ :=
      Walker.walk_of_effective (Pose.gait p.setup.step g.angle) p.setup.pose same
    have along : q.walk h.angle other =
        (Walker.start p.setup.pose).walk (Pose.gait p.setup.step g.angle) (q.table.ops other) := by
      rw [walk, setup, angle]
    -- The strokes and the final pose are all that a path has.
    have path : (q.walk h.angle other).path = (p.walk g.angle word).path := by
      rw [Walker.path, Walker.path, Walker.segments, Walker.segments, along, walk, agrees.here,
        agrees.drawn]
    rw [setup, path] at ends'
    rw [← along] at notes'
    change List.Forall₂ _ (p.walk g.angle word).skipped ranks at notes
    -- From here on only the returns matter that each walk has skipped.
    generalize (p.walk g.angle word).skipped = skipped at ends notes
    generalize (q.walk h.angle other).skipped = skipped' at ends' notes'
    cases policy : p.setup.policy with
    -- The lenient policy lets every word through.
    | lenient =>
      rw [policy, PopPolicy.judge_lenient] at ends ends'
      exact .inl ⟨_, ends, ends'⟩
    -- The strict policy refuses a word for the first unmatched return, if there is any.
    | strict =>
      rw [policy] at ends ends'
      cases notes with
      -- None was skipped by either, so that both draw.
      | nil =>
        cases notes'
        exact .inl ⟨_, ends, ends'⟩
      -- The first ones that were skipped have the same rank.
      | cons first _ =>
        cases notes' with
        | cons first' _ => exact .inr (.inr ⟨_, _, _, ends, ends', first, first'⟩)

/--
What a word is drawn to depends on the sequence of its effective operations and on nothing else.

Two words have the same effect under the same settings and turn angle if their effective operations
are the same, whatever tables of symbols they were read by. So idle symbols may be left out
anywhere, and a symbol that does not occur may be bound to anything.
-/
theorem interpret_effective (p : Plotter) (g : Grammar) (word : Word) :
    (∀ (q : Plotter) (h : Grammar) (other : Word), q.setup = p.setup → h.angle = g.angle →
      Op.effective (p.table.ops word) = Op.effective (q.table.ops other) →
        SameEffect p q g h word other) ∧
    (∀ before idle after : Word, word = before ++ idle ++ after →
      (∀ symbol ∈ idle, p.table.op symbol = .ignore) →
        SameEffect p p g g word (before ++ after)) ∧
    ∀ (symbol : Char) (op : Op), symbol ∉ word →
      (p.assign symbol op).interpret g word = p.interpret g word := by
  refine ⟨fun q h other setup angle same => sameEffect_of_effective setup angle same, ?_, ?_⟩
  -- An idle part in the middle leaves the effective ops as they were.
  · rintro before idle after rfl none
    refine sameEffect_of_effective rfl rfl ?_
    rw [SymbolTable.ops_append, SymbolTable.ops_append, SymbolTable.ops_append]
    exact Op.effective_of_idle (List.forall_mem_map.2 none) _ _
  -- A symbol that does not occur is never looked up.
  · intro symbol op absent
    refine interpret_congr rfl rfl (List.map_congr_left fun other member => ?_)
    have differs : other ≠ symbol := fun same => absent (same ▸ member)
    exact (p.table.op_assign symbol other op).trans (if_neg differs)

/-- Another alphabet with idle symbols in between, refused for the same of two returns. -/
theorem interpret_effective_rebound :
    let p := Plotter.standard
    let q := ((p.assign 'G' .draw).assign 'R' .pop).assign ']' .ignore
    let g := Figure.tree1.grammar
    let h := Figure.tree3.grammar
    q.setup = p.setup ∧ h.angle = g.angle ∧
      Op.effective (p.table.ops "XF[+F]]F".toList) = Op.effective (q.table.ops "G[+]GRYRF".toList) ∧
      (p.interpret g "XF[+F]]F".toList).outcome = .error (.unmatchedPop 6) ∧
      (q.interpret h "G[+]GRYRF".toList).outcome = .error (.unmatchedPop 7) := by
  have valid : Setup.standard.validate = .ok () := by rfl
  intro p q g h
  have same : Op.effective (p.table.ops "XF[+F]]F".toList) =
      Op.effective (q.table.ops "G[+]GRYRF".toList) := by decide
  have judged : p.setup.policy.judge (p.walk g.angle "XF[+F]]F".toList).skipped =
      .error (.unmatchedPop 6) := by rfl
  have refused : (p.interpret g "XF[+F]]F".toList).outcome = .error (.unmatchedPop 6) :=
    congrArg Run.outcome (interpret_of_refused (p := p) valid judged)
  refine ⟨rfl, rfl, same, refused, ?_⟩
  -- The theorem leaves three endings for the second word, two of which the first rules out.
  rcases (p.interpret_effective g "XF[+F]]F".toList).1 q h "G[+]GRYRF".toList rfl rfl same with
    ⟨path, drawn, _⟩ | ⟨fault, invalid, _⟩ | ⟨index, index', rank, here, there, ranks, ranks'⟩
  · cases drawn.symm.trans refused
  · cases valid.symm.trans invalid
  · cases here.symm.trans refused
    have places : Op.effectivePlaces (p.table.ops "XF[+F]]F".toList) = [1, 2, 3, 4, 5, 6, 7] := by
      decide
    have places' : Op.effectivePlaces (q.table.ops "G[+]GRYRF".toList) = [0, 1, 2, 4, 5, 7, 8] := by
      decide
    rw [Op.Ranks, places] at ranks
    rw [Op.Ranks, places'] at ranks'
    -- Only the sixth effective operation of the first word stands at that place.
    obtain ⟨_, found⟩ := List.getElem?_eq_some_iff.1 ranks
    have sixth : [1, 2, 3, 4, 5, 6, 7][rank] = [1, 2, 3, 4, 5, 6, 7][5] := found
    have apart : [1, 2, 3, 4, 5, 6, 7].Nodup := by decide
    rw [apart.getElem_inj_iff.1 sixth] at ranks'
    cases ranks'
    exact there

end Plotter

end Fractal
