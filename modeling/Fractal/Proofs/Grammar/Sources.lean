import Fractal.Proofs.Double
import Fractal.Proofs.Grammar.Construction
import Fractal.Proofs.Wire.Reading

/-!
Where grammars come from, and what can be relied on for all of them.

Main statements: every way to a grammar leads to the one of exactly the declared parts, and grammars
that compare equal are the same, so that nothing that is done with them tells them apart.
-/

namespace Fractal

namespace Grammar

/-! ### Ways to a grammar -/

/-- A way to a grammar. -/
inductive Source where
  /-- A start word, rules and an angle are checked. -/
  | ofRules (start : Word) (rules : Array Rule) (angle : Float)
  /-- A start word, pairs of a symbol and its successor, and an angle are checked. -/
  | ofPairs (start : Word) (pairs : List (Char × Word)) (angle : Float)
  /-- A figure of the catalogue is asked for its grammar. -/
  | ofFigure (figure : Figure)
  /-- A JSON value is read, with a library that keeps its laws. -/
  | ofJson (wire : Wire) (lawful : wire.Lawful) (value : Json)

namespace Source

/-- A way leads to a grammar, if it is not refused. -/
def LeadsTo : Source → Grammar → Prop
  | ofRules start rules angle, g => Grammar.ofRules start rules angle = .ok g
  | ofPairs start pairs angle, g => Grammar.ofPairs start pairs angle = .ok g
  | ofFigure figure, g => figure.grammar = g
  | ofJson wire _ value, g => wire.grammar.decode value = .ok g

/-- What is declared on a way: a start word, rules in their order, and an angle. -/
def Declares : Source → Word → List Rule → Float → Prop
  | ofRules start rules angle, s, r, a => s = start ∧ r = rules.toList ∧ a = angle
  | ofPairs start pairs angle, s, r, a =>
    s = start ∧ r = (pairs.map fun pair => ⟨pair.1, pair.2⟩) ∧ a = angle
  | ofFigure figure, s, r, a => s = figure.start ∧ r = figure.rules.toList ∧ a = figure.angle
  | ofJson wire _ value, s, r, a => wire.declaration.decode value = .ok (s, r, a)

end Source

/-- A grammar is read from a JSON value exactly when the value declares its parts. -/
theorem decode_eq_ok_iff {w : Wire} (lawful : w.Lawful) {value : Json} {g : Grammar} :
    w.grammar.decode value = .ok g ↔
      w.declaration.decode value = .ok (g.start, g.rules.toList, g.angle) := by
  rw [Wire.grammar, lawful.decode_checked, Except.bind_eq_ok_iff]
  constructor
  · rintro ⟨⟨start, rules, angle⟩, read, accepted⟩
    -- A refusal by the checks is reported as one of the value, and everything else is passed on.
    obtain ⟨rfl, same, rfl⟩ := ofRules_eq_ok_iff.1 (Except.mapError_eq_ok_iff.1 accepted)
    rw [read, same]
  · intro read
    exact ⟨_, read, Except.mapError_eq_ok_iff.2 (ofRules_eq_ok_iff.2 ⟨rfl, rfl, rfl⟩)⟩

/-- Every way leads to a grammar exactly when the parts of that grammar are declared. -/
theorem Source.leadsTo_iff {source : Source} {g : Grammar} :
    source.LeadsTo g ↔ source.Declares g.start g.rules.toList g.angle := by
  -- Three routes end in the checks of the parts, and the figures need none.
  cases source with
  | ofRules start rules angle => exact ofRules_eq_ok_iff.trans (by rw [Declares, Array.toList_inj])
  | ofPairs start pairs angle => exact ofPairs_eq_ok_iff
  | ofFigure figure =>
    constructor
    · rintro rfl
      exact ⟨rfl, rfl, rfl⟩
    -- Parts that agree make the same grammar, whatever evidence it carries.
    · rintro ⟨start, rules, angle⟩
      exact ext start.symm (Array.toList_inj.1 rules.symm) angle.symm
  | ofJson wire lawful value => exact decode_eq_ok_iff lawful

/-! ### Grammars that compare equal -/

/-- Grammars compare equal exactly when they are the same. -/
instance : LawfulBEq Grammar where
  eq_of_beq {g h} same := by
    change (g.start == h.start && g.rules == h.rules && g.angle == h.angle) = true at same
    rw [Bool.and_eq_true, Bool.and_eq_true] at same
    obtain ⟨⟨start, rules⟩, angle⟩ := same
    exact ext (eq_of_beq start) (eq_of_beq rules)
      ((g.angle_positive.beq_iff_eq h.angle_positive).1 angle)
  rfl {g} := by
    change (g.start == g.start && g.rules == g.rules && g.angle == g.angle) = true
    rw [beq_self_eq_true, beq_self_eq_true, (g.angle_positive.beq_iff_eq g.angle_positive).2 rfl]
    rfl

/--
Every way to a grammar leads to a well-formed one, of exactly the parts that were declared.

Its index holds the position of every rule and nothing else, so that a lookup answers as a scan of
the rules does. Grammars that compare equal, although only by what was declared of them, agree in
every lookup, expansion, projection and drawing.
-/
theorem sound_of_leadsTo {source : Source} {g : Grammar} (leads : source.LeadsTo g) :
    source.Declares g.start g.rules.toList g.angle ∧
    (g.start ≠ [] ∧ (g.angle.isFinite = true ∧ 0 < g.angle) ∧
      (g.rules.toList.map Rule.predecessor).Nodup) ∧
    (∀ (symbol : Char) (place : Nat), g.index[symbol]? = some place ↔
      ∃ rule, g.rules[place]? = some rule ∧ rule.predecessor = symbol) ∧
    (∀ symbol, (∀ place : Nat, g.index[symbol]? = some place →
        ∃ inside : place < g.rules.size, g.successor? symbol = some g.rules[place].successor) ∧
      g.successor? symbol =
        (g.rules.toList.find? fun rule => rule.predecessor == symbol).map Rule.successor) ∧
    ∀ h : Grammar, (g == h) = true →
      (∀ symbol, g.successor? symbol = h.successor? symbol) ∧
      (∀ depth, g.expand depth = h.expand depth ∧
        g.projectedLength depth = h.projectedLength depth) ∧
      ∀ (p : Plotter) (word : Word), p.interpret g word = p.interpret h word := by
  -- What was checked is carried by the grammar, and the index follows from its rules.
  refine ⟨Source.leadsTo_iff.1 leads, ⟨g.start_ne_nil, g.angle_positive, g.distinct⟩,
    g.index_eq_some_iff, fun symbol => ⟨fun place => successor?_of_index,
      g.successor?_eq_find? symbol⟩, fun h equal => ?_⟩
  -- What compares equal has the same rules, and with them the same index.
  obtain rfl : g = h := eq_of_beq equal
  exact ⟨fun _ => rfl, fun _ => ⟨rfl, rfl⟩, fun _ _ => rfl⟩

/-- The first plant is read from JSON too, and is looked up in and expanded as in the catalogue. -/
theorem sound_of_leadsTo_tree1 :
    ∃ value g, (Source.ofJson .standard Wire.lawful_standard value).LeadsTo g ∧
      (g == Figure.tree1.grammar) = true ∧
      g.index['F']? = some 0 ∧
      g.successor? 'F' = some "F[+F]F[-F]F".toList ∧
      g.successor? '+' = none ∧
      g.expand 4 = Figure.tree1.grammar.expand 4 := by
  -- The text declares the parts of the first tree, so that this is what is read.
  have read : (Source.ofJson .standard Wire.lawful_standard (.object [("axiom", .text "F"),
      ("rules", .array [.object [("predecessor", .text "F"), ("successor", .text "F[+F]F[-F]F")]]),
      ("turnAngle", .real 25.7 (by decide))])).LeadsTo Figure.tree1.grammar :=
    (decode_eq_ok_iff Wire.lawful_standard).2 rfl
  obtain ⟨-, -, indexed, lookup, alike⟩ := sound_of_leadsTo read
  have equal : (Figure.tree1.grammar == Figure.tree1.grammar) = true := beq_self_eq_true _
  -- The only rule stands at place zero, and rewrites its symbol.
  have first : Figure.tree1.grammar.index['F']? = some 0 := (indexed 'F' 0).2 ⟨_, rfl, rfl⟩
  obtain ⟨_, found⟩ := (lookup 'F').1 0 first
  exact ⟨_, _, read, equal, first, found, (lookup '+').2, ((alike _ equal).2.1 4).1⟩

end Grammar

end Fractal
