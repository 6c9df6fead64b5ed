import Fractal.Proofs.Turtle.Replay

/-!
Words whose unmatched returns are taken out.

Main statement: the lenient drawing of a word is the strict drawing of the word so repaired. The
returns that remain match the same saves as before, because a skipped return closes no branch.
-/

namespace Fractal

namespace Op

/-- A return at which every earlier save has been returned to before. -/
structure Stray (ops : List Op) (now : Nat) : Prop where
  /-- The position holds a return. -/
  returns : ops[now]? = some pop
  /-- Every earlier save is matched by an earlier return. -/
  closed : ∀ save < now, ops[save]? = some push → ∃ back < now, Matched ops save back

/-- Whether a return is stray is decided by the finitely many saves before it. -/
instance (ops : List Op) (now : Nat) : Decidable (Stray ops now) :=
  decidable_of_iff (ops[now]? = some pop ∧
      ∀ save < now, ops[save]? = some push → ∃ back < now, Matched ops save back)
    ⟨fun ⟨returns, closed⟩ => ⟨returns, closed⟩, fun ⟨returns, closed⟩ => ⟨returns, closed⟩⟩

/-- The positions before some position that hold no stray return, in order. -/
def kept (ops : List Op) (now : Nat) : List Nat :=
  (List.range now).filter fun index => !decide (Stray ops index)

/-- A position is kept unless it holds a stray return. -/
theorem kept_succ (ops : List Op) (now : Nat) :
    kept ops (now + 1) = kept ops now ++ if Stray ops now then [] else [now] := by
  rw [kept, filter_range_succ]
  by_cases stray : Stray ops now <;> simp [kept, stray]

/-- Where the height is below that after a save, the save has been returned to. -/
theorem exists_return {ops : List Op} {save now : Nat} (saves : ops[save]? = some push)
    (before : save + 1 < now) (low : heightAt ops now < heightAt ops (save + 1)) :
    ∃ back < now, Matched ops save back := by
  -- Somewhere behind the save the height falls below it, since it is lower now.
  have falls : ∃ back, save < back ∧ heightAt ops (back + 1) < heightAt ops (save + 1) := by
    have same : now - 1 + 1 = now := by omega
    exact ⟨now - 1, by omega, by rwa [same]⟩
  -- The first fall below the height after the save is at the return to it.
  obtain ⟨after, below⟩ := Nat.find_spec falls
  have first : ∀ index, save < index → index ≤ Nat.find falls →
      heightAt ops (save + 1) ≤ heightAt ops index := by
    intro index later within
    rcases Nat.lt_or_eq_of_le later with beyond | rfl
    · have high := Nat.find_min falls (show index - 1 < Nat.find falls by omega)
      have same : index - 1 + 1 = index := by omega
      rw [same] at high
      omega
    · exact Int.le_refl _
  have high := first _ after (Nat.le_refl _)
  obtain ⟨returns, level⟩ := eq_pop_of_fall (Int.lt_of_lt_of_le below high)
  refine ⟨Nat.find falls, ?_, matched_iff_inside.2 ⟨⟨after, saves, first, by omega⟩, returns⟩⟩
  -- Were the first fall not before the present position, the height would still be up there.
  by_contra past
  have above := first now (by omega) (by omega)
  omega

/-- A return that finds nothing saved is stray. -/
theorem Settled.stray {ops : List Op} {now : Nat} (settled : Settled ops now)
    (returns : ops[now]? = some pop) : Stray ops now := by
  refine ⟨returns, fun save before saves => ?_⟩
  -- The present height is no more than that before the save, so it has come down since.
  have up := heightAt_succ saves
  have low := settled save (Nat.le_of_lt before)
  simp only [rise] at up
  have later : save + 1 ≠ now := by
    rintro rfl
    omega
  exact exists_return saves (by omega) (by omega)

/-- A return to a saved pose is not stray. -/
theorem Inside.not_stray {ops : List Op} {save now : Nat} (inside : Inside ops save now) :
    ¬Stray ops now := by
  -- Had the save been returned to before, its pose would not be left.
  intro stray
  obtain ⟨back, earlier, pair⟩ := stray.closed save inside.before inside.saves
  have above := inside.heightAt_lt (Nat.lt_succ_of_lt pair.before) earlier
  rw [pair.heightAt_return] at above
  exact Int.lt_irrefl _ above

end Op

namespace Walker

variable {σ π : Type} {gait : Gait σ π}

/-- Two walks in one pose, with the same poses saved and the same segments drawn. -/
structure Agrees (w v : Walker σ π) : Prop where
  /-- The present poses are the same. -/
  here : w.here = v.here
  /-- The saved poses are the same. -/
  saved : w.saved = v.saved
  /-- The segments are the same. -/
  drawn : w.drawn = v.drawn

/-- Walks that agree still do so after one more operation. -/
theorem Agrees.step {w v : Walker σ π} (agrees : Agrees w v) (op : Op) :
    Agrees (w.step gait op) (v.step gait op) := by
  obtain ⟨here, saved, drawn⟩ := agrees
  -- Each op acts on the parts that agree, and a return looks at the stack, which does too.
  cases op with
  | pop =>
    cases stack : v.saved <;> constructor <;>
      simp [Walker.step, act, stack, saved, here, drawn]
  | _ => constructor <;> simp [Walker.step, act, here, saved, drawn]

/-- Only a return that finds nothing saved is noted. -/
theorem unmatched_step {w : Walker σ π} {op : Op} (found : op = .pop → w.saved ≠ []) :
    (w.step gait op).unmatched = w.unmatched := by
  cases op with
  | pop =>
    cases stack : w.saved with
    -- Only a return that finds nothing is noted.
    | nil => exact absurd stack (found rfl)
    | cons pose rest => rw [step_pop_cons gait stack]
  | _ => rfl

/-- A return finds nothing saved exactly if it is stray. -/
theorem Follows.stray_iff {start : σ} {ops : List Op} {now : Nat} {w : Walker σ π}
    (follows : Follows gait start ops now w) (returns : ops[now]? = some .pop) :
    Op.Stray ops now ↔ w.saved = [] := by
  obtain ⟨saves, opened, stack⟩ := follows.saved
  -- No open branch: the return is stray. An open one: it has a partner.
  cases saves with
  | nil => exact iff_of_true (Op.Settled.stray opened returns) stack
  | cons save rest =>
    refine iff_of_false opened.1.not_stray ?_
    rw [stack]
    exact List.cons_ne_nil _ _

/-- Without its stray returns a list is walked alike, and no return is unmatched. -/
theorem walk_kept (gait : Gait σ π) (pose : σ) (ops : List Op) (now : Nat)
    (within : now ≤ ops.length) :
    let mended := (start pose).walk gait ((Op.kept ops now).filterMap fun index => ops[index]?)
    Agrees ((start pose).walk gait (ops.take now)) mended ∧ mended.unmatched = [] := by
  -- Both walks go along the list, one of them past the strays.
  refine walk_take_induction (w := start pose) (fun now w =>
    let mended := (start pose).walk gait ((Op.kept ops now).filterMap fun index => ops[index]?)
    Agrees w mended ∧ mended.unmatched = []) ⟨⟨rfl, rfl, rfl⟩, rfl⟩ ?_ within
  rintro now op here ⟨agrees, silent⟩
  have before : now ≤ ops.length := Nat.le_of_lt (List.getElem?_eq_some_iff.1 here).1
  have follows := Follows.walk_take gait pose ops now before
  rw [Op.kept_succ]
  generalize (start pose).walk gait (ops.take now) = w at agrees follows ⊢
  by_cases stray : Op.Stray ops now
  -- A stray return does nothing in the whole walk and is not there in the other one.
  · obtain rfl : op = .pop := Option.some.inj (here.symm.trans stray.returns)
    have empty := (follows.stray_iff here).1 stray
    rw [if_pos stray, List.append_nil, step_pop_nil gait empty]
    exact ⟨⟨agrees.here, agrees.saved, agrees.drawn⟩, silent⟩
  -- Every other operation is done in both, and a return finds the same pose.
  · rw [if_neg stray, List.filterMap_append, walk_append]
    simp only [List.filterMap_cons, List.filterMap_nil, here]
    refine ⟨agrees.step op, (unmatched_step fun returns empty => stray ?_).trans silent⟩
    rw [returns] at here
    exact (follows.stray_iff here).2 (agrees.saved.trans empty)

end Walker

/-- The word without its stray returns. -/
def SymbolTable.repair (t : SymbolTable) (word : Word) : Word :=
  (Op.kept (t.ops word) word.length).filterMap fun index => word[index]?

/-- The operations of a repaired word are those at the positions that are kept. -/
theorem SymbolTable.ops_repair (t : SymbolTable) (word : Word) :
    t.ops (t.repair word) =
      (Op.kept (t.ops word) (t.ops word).length).filterMap fun index => (t.ops word)[index]? := by
  rw [repair, length_ops, ops, ops, List.map_filterMap]
  -- A symbol is kept where its op is, since they stand at the same places.
  simp only [List.getElem?_map]

namespace Plotter

/-- A repaired word is walked to the same path as the word itself, and nothing is skipped. -/
theorem walk_repair (p : Plotter) (angle : Float) (word : Word) :
    (p.walk angle (p.table.repair word)).path = (p.walk angle word).path ∧
      (p.walk angle (p.table.repair word)).skipped = [] := by
  obtain ⟨agrees, silent⟩ := Walker.walk_kept (Pose.gait p.setup.step angle) p.setup.pose
    (p.table.ops word) _ (Nat.le_refl _)
  rw [← SymbolTable.ops_repair, List.take_length] at agrees
  rw [← SymbolTable.ops_repair] at silent
  -- The two walks draw alike, and the mended one skips nothing.
  constructor
  · rw [Walker.path, Walker.path, Walker.segments, Walker.segments, walk, walk, agrees.drawn,
      agrees.here]
  · rw [Walker.skipped, walk, silent]
    rfl

/--
Lenient settings draw every word, and strict ones draw its repaired form to the same path.

Where strict settings draw the word as it is, they draw that path as well.
-/
theorem interpret_lenient (table : SymbolTable) (setup : Setup) (valid : setup.validate = .ok ())
    (g : Grammar) (word : Word) :
    let lenient : Plotter := { table, setup := { setup with policy := .lenient } }
    let strict : Plotter := { table, setup := { setup with policy := .strict } }
    ∃ path, (lenient.interpret g word).outcome = .ok path ∧
      (strict.interpret g (table.repair word)).outcome = .ok path ∧
      ∀ drawn, (strict.interpret g word).outcome = .ok drawn → drawn = path := by
  intro lenient strict
  -- The policy has no part in the walk, only in the judgement of it.
  have validLenient : lenient.setup.validate = .ok () := valid
  have validStrict : strict.setup.validate = .ok () := valid
  obtain ⟨same, silent⟩ := strict.walk_repair g.angle word
  refine ⟨(lenient.walk g.angle word).path, ?_, ?_, fun drawn succeeds => ?_⟩
  -- The lenient policy accepts whatever was skipped.
  · exact interpret_eq_ok_iff.2 ⟨validLenient, PopPolicy.judge_lenient _, rfl⟩
  -- The strict policy accepts the mended word, where nothing was.
  · refine interpret_eq_ok_iff.2 ⟨validStrict, ?_, same⟩
    rw [silent, PopPolicy.judge_nil]
  -- If the word itself is accepted, then its own walk is what is drawn.
  · exact (interpret_eq_ok_iff.1 succeeds).2.2.symm

/-- Two of four returns are stray, one of them behind a branch, and the others keep their saves. -/
theorem interpret_lenient_around_branch :
    Setup.standard.validate = .ok () ∧
      SymbolTable.standard.repair "F]F[+F[F]-F]]F".toList = "FF[+F[F]-F]F".toList ∧
      ∃ path,
        ((ofSetup { Setup.standard with policy := .lenient }).interpret Figure.tree1.grammar
          "F]F[+F[F]-F]]F".toList).outcome = .ok path ∧
        (standard.interpret Figure.tree1.grammar "FF[+F[F]-F]F".toList).outcome = .ok path := by
  have valid : Setup.standard.validate = .ok () := by rfl
  -- Two returns are stray, one before the branch and one behind it.
  have repaired : SymbolTable.standard.repair "F]F[+F[F]-F]]F".toList = "FF[+F[F]-F]F".toList := by
    decide
  obtain ⟨path, lenient, strict, _⟩ :=
    interpret_lenient .standard .standard valid Figure.tree1.grammar "F]F[+F[F]-F]]F".toList
  rw [repaired] at strict
  exact ⟨valid, repaired, path, lenient, strict⟩

end Plotter

end Fractal
