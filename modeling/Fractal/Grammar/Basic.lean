import Fractal.Fault
import Fractal.Grammar.Rule

/-!
Rewriting grammars: a start word, at most one rule per symbol, and the angle of a turn.

A grammar is only built by a check of its parts, so every later operation may rely on its shape.
-/

namespace Fractal

/-- A finite number above zero. -/
def PositiveFinite (x : Float) : Prop :=
  x.isFinite = true ∧ 0 < x

/-- Whether a number is positive and finite is decided by two comparisons. -/
instance (x : Float) : Decidable (PositiveFinite x) :=
  inferInstanceAs (Decidable (_ ∧ _))

/-- A number is not positive and finite when it is not finite, or at most zero. -/
theorem not_positiveFinite_iff (x : Float) :
    ¬PositiveFinite x ↔ x.isFinite = false ∨ x ≤ 0 := by
  have zero : (0 : Float).toModel.unpack = .zero .positive := rfl
  cases finite : x.isFinite with
  | false => simp [PositiveFinite, finite]
  | true =>
    have real : x.toModel.unpack.isFinite = true := finite
    -- Finite numbers are comparable with zero, so one of the two comparisons holds.
    have below : ¬0 < x ↔ x ≤ 0 := by
      change ¬decide ((0 : Float).toModel.unpack.lt x.toModel.unpack = true) = true ↔
        decide (x.toModel.unpack.le (0 : Float).toModel.unpack = true) = true
      rw [zero]
      cases unpacked : x.toModel.unpack with
      | infinity sign =>
        rw [unpacked] at real
        exact absurd real Bool.false_ne_true
      | notANumber =>
        rw [unpacked] at real
        exact absurd real Bool.false_ne_true
      | zero sign => exact iff_of_true Bool.false_ne_true rfl
      | finite sign mantissa exponent positive =>
        cases sign with
        | positive => exact iff_of_false (fun above => above rfl) Bool.false_ne_true
        | negative => exact iff_of_true Bool.false_ne_true rfl
    simp [PositiveFinite, finite, below]

/-- A start word with rules that rewrite it, and the turn angle of its drawings. -/
structure Grammar where
  /-- The word that every expansion starts from. -/
  start : Word
  /-- The rules, in the order of their declaration. -/
  rules : Array Rule
  /-- The angle of one turn, in degrees. -/
  angle : Float
  /-- The position of the rule of each symbol that has one. -/
  index : Positions
  /-- There is a symbol to start from. -/
  start_ne_nil : start ≠ []
  /-- A turn is a positive finite number of degrees. -/
  angle_positive : PositiveFinite angle
  /-- No symbol has two rules. -/
  distinct : (rules.toList.map Rule.predecessor).Nodup
  /-- The index is the one that the rules determine. -/
  index_eq : index = Rule.index rules

namespace Grammar

/-- The grammar of a start word, rules and an angle, or the first reason against it. -/
def ofRules (start : Word) (rules : Array Rule) (angle : Float) : Except GrammarFault Grammar :=
  -- The start word is judged before the angle, and the angle before the rules.
  if begins : start = [] then .error .emptyStart
  else if turns : PositiveFinite angle then
    match unique : Rule.repeated? rules with
    | some symbol => .error (.repeatedRule symbol)
    | none => .ok {
        start, rules, angle
        index := Rule.index rules
        start_ne_nil := begins
        angle_positive := turns
        distinct := (Rule.repeated?_eq_none_iff rules).1 unique
        index_eq := rfl }
  else .error (.badAngle angle)

/-- The grammar of a start word, pairs of a symbol and its successor, and an angle. -/
def ofPairs (start : Word) (pairs : List (Char × Word)) (angle : Float) :
    Except GrammarFault Grammar :=
  ofRules start (pairs.map fun pair => ⟨pair.1, pair.2⟩).toArray angle

/-- The grammar of parts that are known to be in order, which are not checked again. -/
def ofTrusted (start : Word) (rules : Array Rule) (angle : Float) (begins : start ≠ [])
    (turns : PositiveFinite angle) (distinct : (rules.toList.map Rule.predecessor).Nodup) :
    Grammar where
  start := start
  rules := rules
  angle := angle
  index := Rule.collect rules
  start_ne_nil := begins
  angle_positive := turns
  distinct := distinct
  index_eq := Rule.collect_eq_index rules distinct

/-- The word that replaces a symbol, if some rule replaces it. -/
def successor? (g : Grammar) (symbol : Char) : Option Word :=
  g.index[symbol]?.bind fun place => g.rules[place]?.map Rule.successor

/-- The word that a symbol becomes in one round: itself when no rule replaces it. -/
def replace (g : Grammar) (symbol : Char) : Word :=
  (g.successor? symbol).getD [symbol]

/-- Grammars are compared by what was declared, angles as numbers. -/
instance : BEq Grammar :=
  ⟨fun g h => g.start == h.start && g.rules == h.rules && g.angle == h.angle⟩

/-- Two grammars with one start word, one list of rules and one angle are the same. -/
@[ext] theorem ext {g h : Grammar} (start : g.start = h.start) (rules : g.rules = h.rules)
    (angle : g.angle = h.angle) : g = h := by
  -- The index is determined by the rules.
  have index : g.index = h.index := by rw [g.index_eq, h.index_eq, rules]
  cases g; cases h
  cases start; cases rules; cases angle; cases index
  rfl

/-- Looking a symbol up in the index finds what a scan of the rules finds. -/
theorem successor?_eq_find? (g : Grammar) (symbol : Char) :
    g.successor? symbol =
      (g.rules.toList.find? fun rule => rule.predecessor == symbol).map Rule.successor := by
  rw [successor?, g.index_eq, Rule.getElem?_index, List.find?_eq_bind_findIdx?_getElem?,
    Option.map_bind]
  simp only [Function.comp_def, Array.getElem?_toList]

end Grammar

end Fractal
