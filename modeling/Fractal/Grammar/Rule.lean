import Std.Data.ExtHashMap

/-! Production rules, and the index from a predecessor to the position of its rule. -/

namespace Fractal

/-- A sequence of symbols, in reading order. -/
abbrev Word := List Char

/-- A rule that replaces one symbol by a word. -/
structure Rule where
  /-- The symbol that is replaced. -/
  predecessor : Char
  /-- The word that takes its place. -/
  successor : Word
  deriving DecidableEq

/-- Symbols are compared by equality, which is an equivalence. -/
instance equivBEqSymbol : @EquivBEq Char instBEqOfDecidableEq :=
  @instEquivBEqOfLawfulBEq Char _ instLawfulBEqChar

/-- Equal symbols have equal code points, so that they are hashed alike. -/
instance lawfulHashableSymbol : @LawfulHashable Char instBEqOfDecidableEq instHashableChar :=
  @instLawfulHashableOfLawfulBEq Char _ _ instLawfulBEqChar

/-- Positions of rules by the symbol that they replace; how they are hashed tells none apart. -/
abbrev Positions := @Std.ExtHashMap Char Nat instBEqOfDecidableEq instHashableChar

namespace Rule

/-- The position of the first rule for each predecessor, added to those already known. -/
def indexFrom (known : Positions) (rules : List (Rule × Nat)) : Positions :=
  rules.foldl (fun known entry => known.insertIfNew entry.1.predecessor entry.2) known

/-- The position of the first rule for each predecessor. -/
def index (rules : Array Rule) : Positions :=
  indexFrom ∅ rules.toList.zipIdx

/-- The position of the last rule for each predecessor, on top of those already known. -/
def collectFrom (known : Positions) (rules : List (Rule × Nat)) : Positions :=
  rules.foldl (fun known entry => known.insert entry.1.predecessor entry.2) known

/-- The position of the last rule for each predecessor. -/
def collect (rules : Array Rule) : Positions :=
  collectFrom ∅ rules.toList.zipIdx

/-- The predecessor of the first rule that repeats the predecessor of an earlier one. -/
def repeated? (rules : Array Rule) : Option Char :=
  let known := index rules
  -- A repeating rule is not the one its predecessor leads to.
  (rules.toList.zipIdx.find? fun entry => known[entry.1.predecessor]? != some entry.2).map
    fun entry => entry.1.predecessor

/-- The index leads to the first rule with a predecessor, counted past what was known before. -/
theorem getElem?_indexFrom (known : Positions) (rules : List Rule) (start : Nat)
    (symbol : Char) :
    (indexFrom known (rules.zipIdx start))[symbol]? =
      (known[symbol]?).or
        ((rules.findIdx? fun rule => rule.predecessor == symbol).map (· + start)) := by
  induction rules generalizing known start with
  | nil => simp [indexFrom]
  | cons rule rest ih =>
    -- The head is entered first, and the tail is indexed on top of it.
    change (indexFrom (known.insertIfNew rule.predecessor start) (rest.zipIdx (start + 1)))[symbol]?
      = _
    rw [ih, Std.ExtHashMap.getElem?_insertIfNew, List.findIdx?_cons]
    by_cases same : rule.predecessor = symbol
    · subst same
      by_cases old : rule.predecessor ∈ known
      · simp [old]
      · simp [old]
    · simp only [beq_iff_eq, same, false_and, if_false]
      cases rest.findIdx? (fun rule => rule.predecessor == symbol) with
      | none => simp
      | some found =>
        -- A position in the tail is one further along in the whole list.
        rw [Option.map_some, Option.map_some, Option.map_some, Nat.add_right_comm found 1 start]
        rfl

/-- The index leads from a symbol to the first rule that replaces it. -/
theorem getElem?_index (rules : Array Rule) (symbol : Char) :
    (index rules)[symbol]? =
      rules.toList.findIdx? (fun rule => rule.predecessor == symbol) := by
  simp [index, getElem?_indexFrom]

/-- Where predecessors are distinct, each leads to its only rule, before what was known. -/
theorem getElem?_collectFrom (known : Positions) (rules : List Rule) (start : Nat)
    (distinct : (rules.map predecessor).Nodup) (symbol : Char) :
    (collectFrom known (rules.zipIdx start))[symbol]? =
      ((rules.findIdx? fun rule => rule.predecessor == symbol).map (· + start)).or
        known[symbol]? := by
  induction rules generalizing known start with
  | nil => simp [collectFrom]
  | cons rule rest ih =>
    obtain ⟨fresh, distinct⟩ := List.nodup_cons.1 distinct
    change (collectFrom (known.insert rule.predecessor start) (rest.zipIdx (start + 1)))[symbol]?
      = _
    rw [ih _ _ distinct, Std.ExtHashMap.getElem?_insert, List.findIdx?_cons]
    by_cases same : rule.predecessor = symbol
    · subst same
      -- No later rule can replace the entry, since its predecessor does not occur again.
      have last : (rest.findIdx? fun other => other.predecessor == rule.predecessor) = none := by
        refine List.findIdx?_eq_none_iff.2 fun other member => ?_
        exact beq_eq_false_iff_ne.2 fun shared => fresh (shared ▸ List.mem_map_of_mem member)
      simp [last]
    · cases rest.findIdx? (fun rule => rule.predecessor == symbol) with
      | none => simp [same]
      | some found => simp [same, Nat.add_right_comm found 1 start, Nat.add_assoc]

/-- Whether the first or the last rule of a predecessor counts is the same if all are distinct. -/
theorem collect_eq_index (rules : Array Rule) (distinct : (rules.toList.map predecessor).Nodup) :
    collect rules = index rules := by
  ext1 symbol
  rw [getElem?_index, collect, getElem?_collectFrom _ _ _ distinct]
  simp

/-- No predecessor is repeated exactly when the predecessors are pairwise distinct. -/
theorem repeated?_eq_none_iff (rules : Array Rule) :
    repeated? rules = none ↔ (rules.toList.map predecessor).Nodup := by
  -- Both sides say that no rule shares its predecessor with an earlier one.
  rw [List.Nodup, List.pairwise_map, List.pairwise_iff_getElem]
  simp only [repeated?, getElem?_index, Option.map_eq_none_iff, List.find?_eq_none,
    bne_iff_ne, ne_eq, Decidable.not_not, List.findIdx?_eq_some_iff_getElem, beq_iff_eq]
  constructor
  · intro first i j _ inside before shared
    have member : (rules.toList[j], j) ∈ rules.toList.zipIdx :=
      List.mk_mem_zipIdx_iff_getElem?.2 (List.getElem?_eq_getElem inside)
    obtain ⟨_, _, unseen⟩ := first _ member
    exact unseen i before shared
  · rintro distinct ⟨rule, place⟩ member
    obtain ⟨inside, here⟩ :=
      List.getElem?_eq_some_iff.1 (List.mk_mem_zipIdx_iff_getElem?.1 member)
    refine ⟨inside, congrArg predecessor here, fun j before shared => ?_⟩
    exact distinct j place (Nat.lt_trans before inside) inside before (by rw [shared, here])

end Rule

end Fractal
