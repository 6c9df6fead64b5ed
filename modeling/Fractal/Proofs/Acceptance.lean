import Fractal.Proofs.Growth.Guard
import Fractal.Proofs.Rendering

/-!
What is accepted along with an expansion or a request that is accepted.

Where no rule erases its symbol, words only grow from round to round. Main statement: what is
accepted is so at every smaller depth and under every larger limit too, for expansions and for
requests alike.
-/

namespace Fractal

namespace Grammar

variable {g : Grammar} {depth other : Int32} {limit more : Count} {word : Word}

/-! ### Growth from round to round -/

/-- Rounds make no word shorter if every successor has symbols. -/
theorem length_le_length_rounds (keeps : ∀ rule ∈ g.rules.toList, rule.successor ≠ []) (n : Nat)
    (word : Word) : word.length ≤ (g.rounds n word).length := by
  -- What is added and what is erased account for the difference, and nothing is erased.
  have balance := g.length_add_addedIn n word
  rw [erasedIn_eq_zero keeps] at balance
  omega

/-- More rounds make no shorter words if every successor has symbols. -/
theorem length_rounds_mono (keeps : ∀ rule ∈ g.rules.toList, rule.successor ≠ []) {m n : Nat}
    (fewer : m ≤ n) (word : Word) : (g.rounds m word).length ≤ (g.rounds n word).length := by
  -- The rounds that are left are done on what the first ones have made.
  obtain ⟨left, rfl⟩ := Nat.exists_eq_add_of_le fewer
  rw [rounds_add]
  exact length_le_length_rounds keeps left _

/-- A smaller depth stands for no more rounds. -/
theorem toNat_toInt_mono (smaller : depth ≤ other) :
    depth.toInt.toNat ≤ other.toInt.toNat :=
  Int.toNat_le_toNat (Int32.le_iff_toInt_le.1 smaller)

/-! ### Expansions under a limit -/

/-- What is accepted at one depth is accepted at a smaller one under a limit that is not smaller. -/
theorem expandBounded_mono (keeps : ∀ rule ∈ g.rules.toList, rule.successor ≠ [])
    (nonneg : 0 ≤ depth) (smaller : depth ≤ other) (larger : limit ≤ more)
    (accepted : (g.expandBounded other limit).outcome = .ok word) :
    (g.expandBounded depth more).outcome = .ok (g.rounds depth.toInt.toNat g.start) := by
  -- The word that was accepted has as many symbols as the depth makes.
  obtain ⟨expanded, short⟩ := expandBounded_eq_ok_iff.1 accepted
  obtain ⟨-, rfl⟩ := expand_eq_ok_iff.1 expanded
  refine expandBounded_eq_ok_iff.2 ⟨expand_eq_ok_iff.2 ⟨nonneg, rfl⟩, ?_⟩
  -- Fewer rounds make a shorter word, and its clamped length is no larger either.
  have grown := length_rounds_mono keeps (toNat_toInt_mono smaller) g.start
  exact Nat.le_trans (Count.clamp_mono grown) (Nat.le_trans short larger)

end Grammar

/-! ### Requests -/

/-- No rule of a figure erases its symbol. -/
theorem Figure.successor_ne_nil (figure : Figure) :
    ∀ rule ∈ figure.grammar.rules.toList, rule.successor ≠ [] := by
  -- The rules of the eight figures are looked through.
  cases figure <;> decide

/-- A request is drawn exactly when its figure exists, its settings are in order and its expansion
is accepted. -/
theorem Request.render_eq_ok_iff {r : Request} {drawing : Drawing} :
    r.render.outcome = .ok drawing ↔
      ∃ figure : Figure, figure.name = r.figureName ∧ r.setup.validate = .ok () ∧
        (figure.grammar.expandBounded r.depth r.maxSymbols).outcome = .ok (r.word figure) ∧
        drawing = { figure, symbolCount := (r.word figure).length, path := r.path figure } := by
  constructor
  · intro drawn
    by_cases known : ∃ figure : Figure, figure.name = r.figureName
    · obtain ⟨figure, named⟩ := known
      rw [render_of_name named, Run.outcome_bind_eq_ok_iff] at drawn
      -- The checks come one after another, and a drawing is what all of them let through.
      obtain ⟨_, valid, drawn⟩ := drawn
      obtain ⟨word, accepted, drawn⟩ := Run.outcome_bind_eq_ok_iff.1 drawn
      obtain ⟨expanded, -⟩ := Grammar.expandBounded_eq_ok_iff.1 accepted
      obtain ⟨-, rfl⟩ := Grammar.expand_eq_ok_iff.1 expanded
      -- What is accepted is balanced, so the walk of it is known.
      obtain ⟨path, walked, ended⟩ := Run.outcome_bind_eq_ok_iff.1 drawn
      obtain rfl : path = r.path figure :=
        Except.ok.inj (walked.symm.trans (congrArg Run.outcome (interpret_word valid)))
      cases ended
      exact ⟨figure, named, valid, accepted, rfl⟩
    -- A name of no figure ends the run at once.
    · rw [render_of_unknown (not_exists.1 known)] at drawn
      cases drawn
  -- Each step of the run succeeds with what the conditions say.
  · rintro ⟨figure, named, valid, accepted, rfl⟩
    rw [render_of_name named, valid, Run.lift_ok, Run.ok_bind]
    refine Run.outcome_bind_eq_ok_iff.2 ⟨_, accepted, ?_⟩
    rw [interpret_word valid]
    rfl

/--
What is accepted at some depth is accepted at every smaller one, and under every larger limit.

Expansions and projected lengths grow with the depth if no rule erases its symbol. No rule of a
figure does, so a request that is drawn is drawn at every smaller depth and under every larger limit
too, with the same figure and no more symbols.
-/
theorem acceptance_mono :
    (∀ g : Grammar, (∀ rule ∈ g.rules.toList, rule.successor ≠ []) →
      ∀ (depth other : Int32) (limit more : Count), 0 ≤ depth → depth ≤ other → limit ≤ more →
        ∃ earlier later size size',
          (g.expand depth).outcome = .ok earlier ∧ (g.expand other).outcome = .ok later ∧
          earlier.length ≤ later.length ∧
          g.projectedLength depth = .ok size ∧ g.projectedLength other = .ok size' ∧
          size ≤ size' ∧
          ((∃ word, (g.expandBounded other limit).outcome = .ok word) →
            (g.expandBounded depth more).outcome = .ok earlier)) ∧
    ∀ (r : Request) (drawing : Drawing), r.render.outcome = .ok drawing →
      ∀ (depth : Int32) (limit : Count), 0 ≤ depth → depth ≤ r.depth → r.maxSymbols ≤ limit →
        ∃ smaller, { r with depth, maxSymbols := limit }.render.outcome = .ok smaller ∧
          smaller.figure = drawing.figure ∧ smaller.symbolCount ≤ drawing.symbolCount := by
  constructor
  -- For a grammar: both depths expand, and lengths and projections grow with the depth.
  · intro g keeps depth other limit more nonneg smaller larger
    have natural : ¬depth < 0 := Int32.not_lt.2 nonneg
    have natural' : ¬other < 0 := Int32.not_lt.2 (Int32.le_trans nonneg smaller)
    have grown := Grammar.length_rounds_mono keeps (Grammar.toNat_toInt_mono smaller) g.start
    exact ⟨_, _, _, _, Grammar.expand_eq_ok_iff.2 ⟨nonneg, rfl⟩,
      Grammar.expand_eq_ok_iff.2 ⟨Int32.le_trans nonneg smaller, rfl⟩, grown,
      g.projectedLength_of_nonneg natural, g.projectedLength_of_nonneg natural',
      Count.clamp_mono grown, fun ⟨_, accepted⟩ =>
        Grammar.expandBounded_mono keeps nonneg smaller larger accepted⟩
  -- For a request: the same figure and settings, and the smaller word is accepted as well.
  · intro r drawing drawn depth limit nonneg smaller larger
    obtain ⟨figure, named, valid, accepted, rfl⟩ := Request.render_eq_ok_iff.1 drawn
    have keeps := figure.successor_ne_nil
    have accepted' := Grammar.expandBounded_mono keeps nonneg smaller larger accepted
    exact ⟨_, Request.render_eq_ok_iff.2 ⟨figure, named, valid, accepted', rfl⟩, rfl,
      Grammar.length_rounds_mono keeps (Grammar.toNat_toInt_mono smaller) _⟩

/-- A plant of eleven symbols is drawn after one round, and its start word under a larger limit. -/
theorem acceptance_mono_tree1 :
    ∃ drawing smaller,
      ({ Request.ofName "tree1" with depth := 1, maxSymbols := 11 }).render.outcome = .ok drawing ∧
      ({ Request.ofName "tree1" with depth := 0, maxSymbols := 12 }).render.outcome = .ok smaller ∧
      smaller.symbolCount ≤ drawing.symbolCount ∧
      ∃ word, (Figure.tree1.grammar.expandBounded 0 12).outcome = .ok word := by
  let r : Request := { Request.ofName "tree1" with depth := 1, maxSymbols := 11 }
  -- One round of the first tree has exactly eleven symbols, which the limit admits.
  have first : r.word .tree1 = "F[+F]F[-F]F".toList := Figure.rounds_one_tree1
  have accepted : (Figure.tree1.grammar.expandBounded 1 11).outcome = .ok (r.word .tree1) := by
    refine Grammar.expandBounded_eq_ok_iff.2
      ⟨Grammar.expand_eq_ok_iff.2 ⟨by decide, rfl⟩, ?_⟩
    rw [first]
    decide
  have valid : Setup.standard.validate = .ok () := by rfl
  obtain ⟨drawing, drawn⟩ : ∃ drawing, r.render.outcome = .ok drawing :=
    ⟨_, Request.render_eq_ok_iff.2 ⟨.tree1, rfl, valid, accepted, rfl⟩⟩
  obtain ⟨smaller, drawn', -, fewer⟩ :=
    acceptance_mono.2 r drawing drawn 0 12 (by decide) (by decide) (by decide)
  -- The expansion is accepted at the lower depth too, by the first part.
  obtain ⟨word, -, -, -, -, -, -, -, -, -, passes⟩ := acceptance_mono.1 Figure.tree1.grammar
    (by decide) 0 1 11 12 (by decide) (by decide) (by decide)
  exact ⟨drawing, smaller, drawn, drawn', fewer, word, passes ⟨_, accepted⟩⟩

end Fractal
