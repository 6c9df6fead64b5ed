import Fractal.Proofs.Grammar.Sources

/-!
How the construction of a grammar ends.

The start word is judged first, then the angle, then the rules, of which the first one to repeat an
earlier predecessor is named. Main statement: each verdict is given under exactly its condition,
and a JSON value that spells the parts of a grammar is judged as these parts are.
-/

namespace Fractal

/-! ### Rules that repeat a predecessor -/

/-- The positions of the rules that replace the symbol of an earlier rule. -/
def Rule.Repeats (rules : Array Rule) : Set Nat :=
  { late | ∃ early < late, ∃ rule rule', rules[early]? = some rule ∧ rules[late]? = some rule' ∧
    rule.predecessor = rule'.predecessor }

/-- A rule repeats exactly if the index does not lead to it. -/
theorem Rule.mem_repeats_iff {rules : Array Rule} {place : Nat} {rule : Rule}
    (here : rules[place]? = some rule) :
    place ∈ Repeats rules ↔ (index rules)[rule.predecessor]? ≠ some place := by
  obtain ⟨inside, found⟩ := Array.getElem?_eq_some_iff.1 here
  rw [getElem?_index, ne_eq, List.findIdx?_eq_some_iff_getElem]
  -- The index leads to the first rule for a symbol, so it cannot lead to one after another.
  constructor
  · rintro ⟨early, before, other, rule', there, same, shared⟩ ⟨_, _, first⟩
    obtain ⟨_, rfl⟩ := Array.getElem?_eq_some_iff.1 there
    cases here.symm.trans same
    exact first early before (beq_iff_eq.2 shared)
  · intro differs
    -- Without an earlier rule for the symbol, the index would lead here.
    by_contra first
    refine differs ⟨inside, beq_iff_eq.2 (congrArg predecessor found), fun early before named => ?_⟩
    have earlier : early < rules.size := before.trans inside
    exact first ⟨early, before, rules[early], rule, Array.getElem?_eq_getElem earlier, here,
      beq_iff_eq.1 named⟩

/-- A symbol is repeated exactly if the first rule to repeat any replaces it. -/
theorem Rule.repeated?_eq_some_iff {rules : Array Rule} {symbol : Char} :
    repeated? rules = some symbol ↔
      ∃ place, IsLeast (Repeats rules) place ∧
        ∃ rule, rules[place]? = some rule ∧ rule.predecessor = symbol := by
  simp only [repeated?, Option.map_eq_some_iff, List.find?_eq_some_iff_getElem,
    List.getElem_zipIdx, Nat.zero_add, bne_iff_ne, Bool.not_eq_true', bne_eq_false_iff_eq]
  -- A search finds the first rule with a property, and a least element is the first one too.
  constructor
  · rintro ⟨_, ⟨differs, place, within, rfl, first⟩, rfl⟩
    rw [List.length_zipIdx, Array.length_toList] at within
    have here : rules[place]? = some rules[place] := Array.getElem?_eq_getElem within
    refine ⟨place, ⟨(mem_repeats_iff here).2 differs, fun other repeats => ?_⟩, _, here, rfl⟩
    -- A repeating rule before the one found would have been found in its place.
    by_contra before
    rw [Nat.not_le] at before
    have there : rules[other]? = some rules[other] := Array.getElem?_eq_getElem (by omega)
    exact (mem_repeats_iff there).1 repeats (first other before)
  · rintro ⟨place, ⟨repeats, least⟩, rule, here, rfl⟩
    obtain ⟨within, rfl⟩ := Array.getElem?_eq_some_iff.1 here
    refine ⟨_, ⟨(mem_repeats_iff here).1 repeats, place, by simpa using within, rfl,
      fun other before => ?_⟩, rfl⟩
    -- Before the least repeating rule, the index leads to every rule itself.
    have there : rules[other]? = some rules[other] := Array.getElem?_eq_getElem (by omega)
    by_contra differs
    exact Nat.not_le.2 before (least ((mem_repeats_iff there).2 differs))

/-- A number is not finite exactly if it is none at all or infinite. -/
theorem Double.isFinite_eq_false_iff (x : Float) :
    x.isFinite = false ↔ x.isNaN = true ∨ x.isInf = true := by
  change x.toModel.unpack.isFinite = false ↔
    x.toModel.unpack.isNaN = true ∨ x.toModel.unpack.isInf = true
  -- The classes of a double are told apart by their constructors.
  cases x.toModel.unpack <;>
    simp [Float.Model.UnpackedFloat.isFinite, Float.Model.UnpackedFloat.isNaN,
      Float.Model.UnpackedFloat.isInf]

/-! ### JSON values that spell the parts of a grammar -/

/-- A JSON value that spells a rule. -/
inductive Rule.Spelling : Json → Rule → Prop where
  /-- The sides of the rule stand under their names, once, in any order and among any others. -/
  | named {fields : List (String × Json)} {predecessor : Char} {successor : Word}
      (once : Json.Once ["predecessor", "successor"] fields)
      (left : fields.lookup "predecessor" = some (.text (String.ofList [predecessor])))
      (right : fields.lookup "successor" = some (.text (String.ofList successor))) :
      Spelling (.object fields) ⟨predecessor, successor⟩
  /-- The sides of the rule stand in a list, the symbol that is replaced first. -/
  | placed (predecessor : Char) (successor : Word) :
      Spelling (.array [.text (String.ofList [predecessor]), .text (String.ofList successor)])
        ⟨predecessor, successor⟩

/-- A JSON value that spells a start word, rules and an angle. -/
inductive Grammar.Spelling : Json → Word → List Rule → Float → Prop where
  /-- The parts stand under their names, once, in any order and among any others. -/
  | named {fields : List (String × Json)} {start : Word} {items : List Json} {rules : List Rule}
      {number : Json} {angle : Float}
      (once : Json.Once ["axiom", "rules", "turnAngle"] fields)
      (begins : fields.lookup "axiom" = some (.text (String.ofList start)))
      (list : fields.lookup "rules" = some (.array items))
      (each : List.Forall₂ Rule.Spelling items rules)
      (turn : fields.lookup "turnAngle" = some number) (turns : Double.Spelling number angle) :
      Spelling (.object fields) start rules angle
  /-- The parts stand in a list, in this order. -/
  | placed (start : Word) {items : List Json} {rules : List Rule} {number : Json} {angle : Float}
      (each : List.Forall₂ Rule.Spelling items rules) (turns : Double.Spelling number angle) :
      Spelling (.array [.text (String.ofList start), .array items, number]) start rules angle

/-- A rule is read from what spells it. -/
theorem Rule.decode_eq_ok_iff_spelling {w : Wire} (lawful : w.Lawful) {json : Json} {rule : Rule} :
    w.rule.decode json = .ok rule ↔ Spelling json rule := by
  rw [Wire.rule, lawful.decode_record]
  cases json with
  -- By name, both sides are looked up, and neither may be left out.
  | object fields =>
    rw [Record.spelling_object_iff]
    simp only [List.forall_mem_cons, Record.Field.reads_required_iff, lawful.decode_symbol,
      lawful.decode_word]
    constructor
    · rintro ⟨once, ⟨_, left, rfl⟩, ⟨_, right, rfl⟩, -⟩
      exact .named once left right
    · rintro ⟨once, left, right⟩
      exact ⟨once, ⟨_, left, rfl⟩, ⟨_, right, rfl⟩, by simp⟩
  -- By place, the list has exactly the two sides.
  | array items =>
    rw [Record.spelling_array_iff, Record.forall_placed_iff_forall₂ (by simp)]
    simp only [List.forall₂_cons_left_iff, List.forall₂_nil_left_iff, lawful.decode_symbol,
      lawful.decode_word]
    constructor
    · rintro ⟨_, _, rfl, ⟨_, _, rfl, rfl, rfl⟩, rfl⟩
      exact .placed _ _
    · rintro (_ | ⟨predecessor, successor⟩)
      exact ⟨_, _, rfl, ⟨_, _, rfl, rfl, rfl⟩, rfl⟩
  -- Nothing but an object or a list spells a rule, whatever else it is.
  | _ => exact iff_of_false (by rintro ⟨⟩) (by rintro ⟨⟩)

namespace Grammar

/-- The parts of a grammar are read from what spells them. -/
theorem decode_declaration_eq_ok_iff_spelling {w : Wire} (lawful : w.Lawful) {json : Json}
    {start : Word} {rules : List Rule} {angle : Float} :
    w.declaration.decode json = .ok (start, rules, angle) ↔ Spelling json start rules angle := by
  rw [Wire.declaration, lawful.decode_record]
  cases json with
  -- By name, all three parts are looked up, and each rule of the list is read in turn.
  | object fields =>
    rw [Record.spelling_object_iff]
    simp only [List.forall_mem_cons, Record.Field.reads_required_iff, lawful.decode_word,
      lawful.decode_list, lawful.decode_float, Rule.decode_eq_ok_iff_spelling lawful]
    constructor
    · rintro ⟨once, ⟨_, begins, rfl⟩, ⟨_, list, items, rfl, each⟩, ⟨_, turn, turns⟩, -⟩
      exact .named once begins list each turn turns
    · rintro ⟨once, begins, list, each, turn, turns⟩
      exact ⟨once, ⟨_, begins, rfl⟩, ⟨_, list, _, rfl, each⟩, ⟨_, turn, turns⟩, by simp⟩
  -- By place, the list has exactly the three parts.
  | array items =>
    rw [Record.spelling_array_iff, Record.forall_placed_iff_forall₂ (by simp)]
    simp only [List.forall₂_cons_left_iff, List.forall₂_nil_left_iff, lawful.decode_word,
      lawful.decode_list, lawful.decode_float, Rule.decode_eq_ok_iff_spelling lawful]
    constructor
    · rintro ⟨_, _, rfl, ⟨_, _, ⟨_, rfl, each⟩, ⟨_, _, turns, rfl, rfl⟩, rfl⟩, rfl⟩
      exact .placed _ each turns
    · rintro (_ | ⟨_, each, turns⟩)
      exact ⟨_, _, rfl, ⟨_, _, ⟨_, rfl, each⟩, ⟨_, _, turns, rfl, rfl⟩, rfl⟩, rfl⟩
  | _ => exact iff_of_false (by rintro ⟨⟩) (by rintro ⟨⟩)

/-- What spells parts is judged as the parts are. -/
theorem decode_of_spelling {w : Wire} (lawful : w.Lawful) {json : Json} {start : Word}
    {rules : List Rule} {angle : Float} (spells : Spelling json start rules angle) :
    w.grammar.decode json = (ofRules start rules.toArray angle).mapError .invalidGrammar := by
  -- The declaration is read, and then the checks alone decide.
  rw [Wire.grammar, lawful.decode_checked,
    (decode_declaration_eq_ok_iff_spelling lawful).2 spells]
  rfl

/-! ### Verdicts -/

section Verdicts

variable {start : Word} {rules : Array Rule} {angle : Float}

/-- An angle that is not a positive finite number is named before any rule is looked at. -/
theorem ofRules_of_bad_angle (begins : start ≠ []) (bad : ¬PositiveFinite angle) :
    ofRules start rules angle = .error (.badAngle angle) := by
  -- The start word has passed its check, and the check of the angle comes next.
  rw [ofRules, dif_neg begins, dif_neg bad]

/-- With all else in order, a symbol is named exactly if it is the one repeated first. -/
theorem ofRules_eq_repeatedRule_iff (begins : start ≠ []) (turns : PositiveFinite angle)
    {symbol : Char} :
    ofRules start rules angle = .error (.repeatedRule symbol) ↔
      Rule.repeated? rules = some symbol := by
  -- Both earlier checks are passed, so that the search for a repetition decides.
  rw [ofRules, dif_neg begins, dif_pos turns]
  split
  · rename_i repeats
    simp [repeats]
  · rename_i none
    simp [none]

/-- With all else in order, rules of which none repeats make a grammar of these parts. -/
theorem exists_ofRules_of_no_repeats (begins : start ≠ []) (turns : PositiveFinite angle)
    (none : Rule.Repeats rules = ∅) :
    ∃ g, ofRules start rules angle = .ok g ∧ g.start = start ∧ g.rules = rules ∧
      g.angle = angle := by
  -- A symbol that were named would be that of a repeating rule.
  have distinct : Rule.repeated? rules = .none := by
    refine Option.eq_none_iff_forall_ne_some.2 fun symbol repeats => ?_
    obtain ⟨place, ⟨member, _⟩, _⟩ := Rule.repeated?_eq_some_iff.1 repeats
    exact Set.notMem_empty place (none ▸ member)
  obtain ⟨g, made⟩ := exists_ofRules_eq_ok_iff.2
    ⟨begins, turns, (Rule.repeated?_eq_none_iff rules).1 distinct⟩
  exact ⟨g, made, ofRules_eq_ok_iff.1 made⟩

end Verdicts

/--
Every start word, list of rules and angle get the first verdict that applies to them.

The start word may be empty, the angle not positive and finite, or a rule the first to repeat the
symbol of an earlier one. What none of this applies to makes a grammar of exactly these parts. Pairs
are judged as the rules they stand for. Over every library that keeps its laws, a JSON value that
spells the parts is judged as they are, and no other one is read as a grammar.
-/
theorem ofRules_verdict (start : Word) (rules : Array Rule) (angle : Float) :
    let verdict := ofRules start rules angle
    (if start = [] then verdict = .error .emptyStart
      else if angle.isNaN = true ∨ angle.isInf = true ∨ angle ≤ 0 then
        verdict = .error (.badAngle angle)
      else
        (∀ symbol, verdict = .error (.repeatedRule symbol) ↔
          ∃ place, IsLeast (Rule.Repeats rules) place ∧
            ∃ rule, rules[place]? = some rule ∧ rule.predecessor = symbol) ∧
        (Rule.Repeats rules = ∅ → ∃ g, verdict = .ok g ∧ g.start = start ∧ g.rules = rules ∧
          g.angle = angle)) ∧
    (∀ pairs : List (Char × Word), rules = (pairs.map fun pair => ⟨pair.1, pair.2⟩).toArray →
      ofPairs start pairs angle = verdict) ∧
    ∀ wire : Wire, wire.Lawful →
      (∀ json, Spelling json start rules.toList angle →
        wire.grammar.decode json = verdict.mapError .invalidGrammar) ∧
      ∀ json g, wire.grammar.decode json = .ok g →
        Spelling json g.start g.rules.toList g.angle := by
  intro verdict
  refine ⟨?_, ?_, fun wire lawful => ⟨fun json spells => ?_, fun json g read => ?_⟩⟩
  -- The angle is refused by the same condition as a number that is not positive and finite.
  · have bad : angle.isNaN = true ∨ angle.isInf = true ∨ angle ≤ 0 ↔ ¬PositiveFinite angle := by
      rw [not_positiveFinite_iff, Double.isFinite_eq_false_iff, or_assoc]
    -- The verdicts are gone through in the order of the checks.
    split_ifs with empty refused
    · subst empty
      exact dif_pos rfl
    · exact ofRules_of_bad_angle empty (bad.1 refused)
    · have turns : PositiveFinite angle := not_not.1 (mt bad.2 refused)
      exact ⟨fun symbol => (ofRules_eq_repeatedRule_iff empty turns).trans
        Rule.repeated?_eq_some_iff, exists_ofRules_of_no_repeats empty turns⟩
  -- Pairs are turned into rules before anything is judged.
  · rintro pairs rfl
    rfl
  · exact decode_of_spelling lawful spells
  · exact (decode_declaration_eq_ok_iff_spelling lawful).1 ((decode_eq_ok_iff lawful).1 read)

/-- Of two symbols with two rules each, the one is named whose second rule comes first. -/
theorem ofRules_verdict_repeated :
    let rules : Array Rule :=
      #[⟨'X', "F".toList⟩, ⟨'F', "FF".toList⟩, ⟨'F', "X".toList⟩, ⟨'X', "X".toList⟩]
    let pairs := [('X', "F".toList), ('F', "FF".toList), ('F', "X".toList), ('X', "X".toList)]
    let json : Json := .object [("turnAngle", .whole 60), ("note", .null),
      ("rules", .array (rules.toList.map Wire.standard.rule.encode)), ("axiom", .text "FX")]
    let cause := GrammarFault.repeatedRule 'F'
    Spelling json "FX".toList rules.toList (Codec.nearest 60) ∧
      ofRules "FX".toList rules (Codec.nearest 60) = .error cause ∧
      ofPairs "FX".toList pairs (Codec.nearest 60) = .error cause ∧
      Wire.standard.grammar.decode json = .error (.invalidGrammar cause) := by
  intro rules pairs json cause
  have spells : Spelling json "FX".toList rules.toList (Codec.nearest 60) :=
    (decode_declaration_eq_ok_iff_spelling Wire.lawful_standard).1 (by rfl)
  have first : IsLeast (Rule.Repeats rules) 2 := by
    refine ⟨⟨1, by decide, _, _, rfl, rfl, rfl⟩, ?_⟩
    -- Of the two earlier rules, the second one has another symbol than the first.
    rintro late ⟨early, before, rule, rule', here, there, same⟩
    by_contra sooner
    obtain ⟨rfl, rfl⟩ : early = 0 ∧ late = 1 := by omega
    cases here
    cases there
    exact absurd same (by decide)
  obtain ⟨judged, paired, carried⟩ := ofRules_verdict "FX".toList rules (Codec.nearest 60)
  have spelled := (carried .standard Wire.lawful_standard).1
  rw [if_neg (by decide), if_neg (by decide +kernel)] at judged
  have refused := (judged.1 'F').2 ⟨2, first, _, rfl, rfl⟩
  refine ⟨spells, refused, (paired pairs rfl).trans refused, ?_⟩
  rw [spelled json spells, refused]
  rfl

end Grammar

end Fractal
