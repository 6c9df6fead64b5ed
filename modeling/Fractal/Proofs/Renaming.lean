import Fractal.Figure
import Fractal.Proofs.Grammar.Construction
import Fractal.Proofs.Growth.Projection
import Fractal.Proofs.Turtle.Interpretation

/-!
Other names for the symbols of a grammar.

Symbols are only ever told apart, by the rules and by the table of a turtle. Main statement: a
grammar whose symbols get other names expands to the renamed words, is projected and refused alike,
and is drawn alike by every turtle that gives the new names the old operations.
-/

namespace Fractal

/-- The rule with other names for its symbols. -/
def Rule.rename (names : Char → Char) (rule : Rule) : Rule where
  predecessor := names rule.predecessor
  successor := rule.successor.map names

namespace Grammar

variable (g : Grammar) (names : Char ↪ Char)

/-- The grammar with other names for its symbols, distinct ones for distinct symbols. -/
def rename : Grammar where
  start := g.start.map names
  rules := g.rules.map (Rule.rename names)
  angle := g.angle
  index := Rule.index (g.rules.map (Rule.rename names))
  start_ne_nil := mt List.map_eq_nil_iff.1 g.start_ne_nil
  angle_positive := g.angle_positive
  distinct := by
    -- The new predecessors are the old ones under their new names.
    have renamed := g.distinct.map names.injective
    rw [List.map_map] at renamed
    rw [Array.toList_map, List.map_map]
    exact renamed
  index_eq := rfl

/-- What replaces a renamed symbol is the renamed replacement of the symbol. -/
theorem replace_rename (symbol : Char) :
    (g.rename names).replace (names symbol) = (g.replace symbol).map names := by
  have rules : (g.rename names).rules.toList = g.rules.toList.map (Rule.rename names) :=
    Array.toList_map
  -- A rule has the new name for its predecessor exactly if it had the old one.
  have same : (fun rule : Rule => rule.predecessor == names symbol) ∘ Rule.rename names =
      fun rule => rule.predecessor == symbol := by
    funext rule
    exact names.injective.beq_eq
  rw [replace_eq_find?, replace_eq_find?, rules, List.find?_map, same]
  -- The rule that is found has the renamed successor, and where none is the symbol stays.
  cases g.rules.toList.find? fun rule => rule.predecessor == symbol with
  | none => rfl
  | some rule => rfl

/-- A round of a renamed word is the renamed round of the word. -/
theorem rewrite_rename (word : Word) :
    (g.rename names).rewrite (word.map names) = (g.rewrite word).map names := by
  rw [rewrite, rewrite, List.flatMap_map, List.map_flatMap]
  -- Symbol by symbol, renaming may come before or after rewriting.
  exact List.flatMap_congr fun symbol _ => g.replace_rename names symbol

/-- So are any number of rounds. -/
theorem rounds_rename (n : Nat) (word : Word) :
    (g.rename names).rounds n (word.map names) = (g.rounds n word).map names := by
  -- The word changes from round to round, so it is generalized.
  induction n generalizing word with
  | zero => rfl
  | succ n ih => rw [rounds_succ, rewrite_rename, ih, rounds_succ]

/-- No number of rounds makes more or fewer symbols of a start word for its new names. -/
theorem length_rounds_rename (n : Nat) :
    ((g.rename names).rounds n (g.rename names).start).length = (g.rounds n g.start).length := by
  have renamed : (g.rename names).rounds n (g.rename names).start =
      (g.rounds n g.start).map names := g.rounds_rename names n g.start
  rw [renamed, List.length_map]

/-- The checks of a grammar let the renamed parts through, and make the renamed grammar of them. -/
theorem ofRules_rename :
    ofRules (g.start.map names) (g.rules.map (Rule.rename names)) g.angle =
      .ok (g.rename names) :=
  (g.rename names).ofRules_self

/-- The expansion is the renamed one, with the same reports and refusals. -/
theorem expand_rename (depth : Int32) :
    (g.rename names).expand depth = List.map names <$> g.expand depth := by
  rw [Run.map_eq]
  by_cases negative : depth < 0
  -- A negative depth is refused in either naming, with the same fault.
  · rw [expand_of_neg _ negative, expand_of_neg _ negative]
    rfl
  -- Otherwise the events tell lengths only, which renaming keeps.
  · have start : (g.rename names).start.length = g.start.length := List.length_map _
    rw [expand_of_nonneg _ negative, expand_of_nonneg _ negative, length_rounds_rename, start]
    exact congrArg (fun word => Run.mk _ (.ok word)) (g.rounds_rename names _ g.start)

/-- The same length is projected, although the symbols stand in another order in the table. -/
theorem projectedLength_rename (depth : Int32) :
    (g.rename names).projectedLength depth = g.projectedLength depth := by
  by_cases negative : depth < 0
  · rw [projectedLength_of_neg _ negative, projectedLength_of_neg _ negative]
  · rw [projectedLength_of_nonneg _ negative, projectedLength_of_nonneg _ negative,
      length_rounds_rename]

/-- The expansion under a limit is the renamed one, or is refused alike. -/
theorem expandBounded_rename (depth : Int32) (limit : Count) :
    (g.rename names).expandBounded depth limit =
      List.map names <$> g.expandBounded depth limit := by
  rw [expandBounded, expandBounded, projectedLength_rename, expand_rename, map_bind]
  refine congrArg _ (funext fun projected => ?_)
  -- The projections are equal, so that both pass the limit or neither does.
  split
  · rfl
  · rfl

/-- A turtle that gives the new names the old operations draws the renamed word alike. -/
theorem interpret_rename {p q : Plotter} (setup : q.setup = p.setup) {word : Word}
    (same : ∀ symbol ∈ word, q.table.op (names symbol) = p.table.op symbol) :
    q.interpret (g.rename names) (word.map names) = p.interpret g word := by
  -- A plotter sees the ops and not the names.
  refine Plotter.interpret_congr setup rfl ?_
  rw [SymbolTable.ops, SymbolTable.ops, List.map_map]
  exact List.map_congr_left same

/--
Nothing that is done with a grammar depends on which symbols it is made of.

With other names for its symbols, distinct ones for distinct symbols, a grammar passes its checks
and expands to the renamed words. The projected lengths are the same, and so are the refusals. Two
turtles with one setting draw the two expansions alike, or refuse them at the same position, if
every symbol that occurs has the same operation under both of its names.
-/
theorem rename_equivariant (g : Grammar) (names : Char ↪ Char) (depth : Int32) :
    ofRules (g.start.map names) (g.rules.map (Rule.rename names)) g.angle =
      .ok (g.rename names) ∧
    (g.rename names).expand depth = List.map names <$> g.expand depth ∧
    (g.rename names).projectedLength depth = g.projectedLength depth ∧
    (∀ limit, (g.rename names).expandBounded depth limit =
      List.map names <$> g.expandBounded depth limit) ∧
    ∀ (p q : Plotter) (word renamed : Word), q.setup = p.setup →
      (g.expand depth).outcome = .ok word → ((g.rename names).expand depth).outcome = .ok renamed →
      (∀ symbol ∈ word, q.table.op (names symbol) = p.table.op symbol) →
      q.interpret (g.rename names) renamed = p.interpret g word := by
  refine ⟨g.ofRules_rename names, g.expand_rename names depth, g.projectedLength_rename names depth,
    g.expandBounded_rename names depth, fun p q word renamed setup expanded expanded' same => ?_⟩
  -- The expansion of the renamed grammar is no other word than the renamed expansion.
  rw [expand_rename, Run.map_eq, expanded] at expanded'
  obtain rfl : word.map names = renamed := Except.ok.inj expanded'
  exact g.interpret_rename names setup same

/-- The first plant with its brackets exchanged and a letter of two bytes for its strokes. -/
theorem rename_equivariant_tree1 :
    let names := ((Equiv.swap '[' ']').trans (Equiv.swap 'F' 'Φ')).toEmbedding
    let p := Plotter.standard
    let q := ((p.assign '[' .pop).assign ']' .push).assign 'Φ' .draw
    let g := Figure.tree1.grammar
    ∃ word renamed, (g.expand 2).outcome = .ok word ∧
      ((g.rename names).expand 2).outcome = .ok renamed ∧
      (∀ symbol ∈ word, q.table.op (names symbol) = p.table.op symbol) ∧
      q.interpret (g.rename names) renamed = p.interpret g word := by
  intro names p q g
  obtain ⟨-, expands, -, -, draws⟩ := g.rename_equivariant names 2
  -- Two brackets are swapped, and the letter is taken for one that is not in the grammar.
  have expanded : (g.expand 2).outcome = .ok (g.rounds 2 g.start) :=
    expand_eq_ok_iff.2 ⟨by decide, rfl⟩
  have expanded' : ((g.rename names).expand 2).outcome = .ok ((g.rounds 2 g.start).map names) := by
    rw [expands, Run.map_eq, expanded]
    rfl
  -- Only the symbols of the grammar occur, and each of them keeps its operation.
  have kept : q.table.ops (g.symbols.map names) = p.table.ops g.symbols := by
    have renamed : g.symbols.map names = "ΦΦΦ]+Φ[Φ]-Φ[Φ".toList := by decide
    rw [renamed]
    decide
  rw [SymbolTable.ops, SymbolTable.ops, List.map_map] at kept
  have same : ∀ symbol ∈ g.rounds 2 g.start, q.table.op (names symbol) = p.table.op symbol :=
    fun symbol member => List.map_inj_left.1 kept symbol
      ((g.mem_alphabet symbol).1 (g.covers_rounds 2 g.covers_start symbol member))
  exact ⟨_, _, expanded, expanded', same, draws p q _ _ rfl expanded expanded' same⟩

end Grammar

end Fractal
