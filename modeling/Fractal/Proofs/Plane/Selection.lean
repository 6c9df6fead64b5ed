import Mathlib

/-!
Folds of a choice between two items.

A choice that takes the first of two items only if its key is the lesser one finds an item of least
key among any number of items, wherever they are cut into two lists. If an item that is not valid
displaces what was chosen before it, only the items behind the last such one have a say.
-/

namespace Fractal

variable {α κ : Type} [LinearOrder κ]

/-- Of two valid items the one with the lesser key is chosen, and the second if the keys agree. -/
def Selects (Valid : α → Prop) (key : α → κ) (choose : α → α → α) : Prop :=
  ∀ a b, Valid a → Valid b → choose a b = if key a < key b then a else b

namespace Selects

variable {Valid : α → Prop} {key : α → κ} {choose : α → α → α} {a b c : α}

/-- One of two items is chosen, and no other. -/
theorem choose_cases (selects : Selects Valid key choose) (left : Valid a) (right : Valid b) :
    choose a b = a ∨ choose a b = b := by
  rw [selects a b left right]
  exact ite_eq_or_eq _ _ _

/-- The chosen item is valid. -/
theorem valid_choose (selects : Selects Valid key choose) (left : Valid a) (right : Valid b) :
    Valid (choose a b) := by
  rcases selects.choose_cases left right with same | same
  · rwa [same]
  · rwa [same]

/-- The chosen item has the lesser key. -/
theorem key_choose (selects : Selects Valid key choose) (left : Valid a) (right : Valid b) :
    key (choose a b) = min (key a) (key b) := by
  rw [selects a b left right]
  split
  -- The first is chosen where its key is the lesser one.
  · rename_i less
    exact (min_eq_left less.le).symm
  -- Otherwise the second is, and its key is at most the other.
  · rename_i more
    exact (min_eq_right (not_lt.1 more)).symm

/-- It does not matter which two of three items are compared first. -/
theorem choose_assoc (selects : Selects Valid key choose) (first : Valid a) (second : Valid b)
    (third : Valid c) : choose (choose a b) c = choose a (choose b c) := by
  rw [selects _ c (selects.valid_choose first second) third,
    selects a _ first (selects.valid_choose second third), selects.key_choose first second,
    selects.key_choose second third, selects a b first second, selects b c second third]
  -- Either way the first of the least keys is chosen, in the order of the three.
  grind

variable {items : List α}

/-- The choice among many items is one of them. -/
theorem foldl_mem (selects : Selects Valid key choose) (first : Valid a)
    (valid : ∀ item ∈ items, Valid item) : items.foldl choose a ∈ a :: items := by
  induction items generalizing a with
  | nil => exact List.mem_singleton_self a
  -- The fold starts over from what was chosen of the first two.
  | cons item rest ih =>
    obtain ⟨second, others⟩ := List.forall_mem_cons.1 valid
    have found := ih (selects.valid_choose first second) others
    rw [List.foldl_cons]
    -- What is carried on from the first two items is one of these two.
    rcases selects.choose_cases first second with same | same
    · rw [same] at found ⊢
      exact List.mem_cons.2 ((List.mem_cons.1 found).imp_right (List.mem_cons_of_mem item))
    · rw [same] at found ⊢
      exact List.mem_cons_of_mem a found

/-- The choice among many valid items is valid. -/
theorem valid_foldl (selects : Selects Valid key choose) (first : Valid a)
    (valid : ∀ item ∈ items, Valid item) : Valid (items.foldl choose a) :=
  List.forall_mem_cons.2 ⟨first, valid⟩ _ (selects.foldl_mem first valid)

/-- No item has a lesser key than the choice among all. -/
theorem key_foldl_le (selects : Selects Valid key choose) (first : Valid a)
    (valid : ∀ item ∈ items, Valid item) :
    ∀ item ∈ a :: items, key (items.foldl choose a) ≤ key item := by
  induction items generalizing a with
  | nil => simp
  | cons item rest ih =>
    obtain ⟨second, others⟩ := List.forall_mem_cons.1 valid
    obtain ⟨least, later⟩ := List.forall_mem_cons.1 (ih (selects.valid_choose first second) others)
    -- The carried key is the minimum of the first two, so it bounds both.
    rw [selects.key_choose first second, le_min_iff] at least
    exact List.forall_mem_cons.2 ⟨least.1, List.forall_mem_cons.2 ⟨least.2, later⟩⟩

/-- A choice among many items is one between a first item and the choice among the others. -/
theorem foldl_choose (selects : Selects Valid key choose) (first : Valid a) (second : Valid b)
    (valid : ∀ item ∈ items, Valid item) :
    items.foldl choose (choose a b) = choose a (items.foldl choose b) := by
  induction items generalizing b with
  | nil => rfl
  -- The choice is associative, so that the first item can be set aside to the end.
  | cons item rest ih =>
    obtain ⟨third, others⟩ := List.forall_mem_cons.1 valid
    rw [List.foldl_cons, List.foldl_cons, selects.choose_assoc first second third,
      ih (selects.valid_choose second third) others]

end Selects

/-! ### Items that are not valid -/

/-- The second of two items is chosen unless both are valid. -/
def Displaces (Valid : α → Prop) (choose : α → α → α) : Prop :=
  ∀ a b, ¬(Valid a ∧ Valid b) → choose a b = b

section Recent

variable (Valid : α → Prop) [DecidablePred Valid]

/-- The items behind the last one that is not valid, or all of them if there is none. -/
def recent (items : List α) : List α :=
  items.rtakeWhile fun item => decide (Valid item)

/-- A valid item is recent, as are those that were so before it. -/
theorem recent_concat_of_valid (items : List α) {item : α} (valid : Valid item) :
    recent Valid (items ++ [item]) = recent Valid items ++ [item] :=
  List.rtakeWhile_concat_pos _ _ _ (decide_eq_true valid)

/-- Behind an item that is not valid nothing is left. -/
theorem recent_concat_of_not_valid (items : List α) {item : α} (gap : ¬Valid item) :
    recent Valid (items ++ [item]) = [] :=
  List.rtakeWhile_concat_neg _ _ _ (by simpa using gap)

variable {Valid}

/-- Recent items are valid. -/
theorem valid_of_mem_recent {items : List α} {item : α} (member : item ∈ recent Valid items) :
    Valid item := by
  have passed := List.mem_rtakeWhile_imp member
  exact of_decide_eq_true passed

/-- If all items are valid, all of them are recent. -/
theorem recent_of_valid {items : List α} (valid : ∀ item ∈ items, Valid item) :
    recent Valid items = items :=
  List.rtakeWhile_eq_self_iff.2 fun item member => decide_eq_true (valid item member)

/-- What is chosen among items: a recent one of least key, or none that is valid. -/
structure IsChoice (Valid : α → Prop) [DecidablePred Valid] (key : α → κ) (items : List α)
    (chosen : α) : Prop where
  /-- One of the recent items is chosen, if there are any. -/
  mem : recent Valid items ≠ [] → chosen ∈ recent Valid items
  /-- No recent item has a lesser key. -/
  least : ∀ item ∈ recent Valid items, key chosen ≤ key item
  /-- Without recent items nothing valid is chosen. -/
  gap : recent Valid items = [] → ¬Valid chosen

variable {key : α → κ} {choose : α → α → α}

/-- One more item either is chosen, or leaves the choice as it was, or displaces it. -/
theorem IsChoice.concat (selects : Selects Valid key choose) (displaces : Displaces Valid choose)
    {items : List α} {chosen : α} (choice : IsChoice Valid key items chosen) (item : α) :
    IsChoice Valid key (items ++ [item]) (choose chosen item) := by
  by_cases valid : Valid item
  · have grown := recent_concat_of_valid Valid items valid
    cases some : recent Valid items with
    -- What was chosen before is not valid, and the new item is the only recent one.
    | nil =>
      have only : recent Valid (items ++ [item]) = [item] := by rw [grown, some, List.nil_append]
      have taken : choose chosen item = item :=
        displaces chosen item fun both => choice.gap some both.1
      rw [taken]
      exact ⟨fun _ => by simp [only], by simp [only], by simp [only]⟩
    -- Before it came a valid run, in which the chosen one is the least.
    | cons first rest =>
      have member := choice.mem (some ▸ List.cons_ne_nil first rest)
      have before := valid_of_mem_recent member
      have lesser := selects.key_choose before valid
      refine ⟨fun _ => ?_, fun other among => ?_, fun none => ?_⟩
      -- It stays among the recent items, or the new one does.
      · rw [grown]
        rcases selects.choose_cases before valid with same | same
        · rw [same]
          exact List.mem_append_left _ member
        · rw [same]
          exact List.mem_append_right _ (List.mem_singleton_self item)
      · rw [grown, List.mem_append, List.mem_singleton] at among
        rw [lesser]
        -- Of the two keys the lesser is kept, which bounds both the old items and the new.
        rcases among with earlier | rfl
        · exact (min_le_left _ _).trans (choice.least other earlier)
        · exact min_le_right _ _
      -- A valid last item leaves the recent items nonempty.
      · rw [grown] at none
        exact absurd none (List.append_ne_nil_of_right_ne_nil _ (List.cons_ne_nil item []))
  -- An item that is not valid displaces whatever was chosen.
  · have none := recent_concat_of_not_valid Valid items valid
    have taken : choose chosen item = item := displaces chosen item fun both => valid both.2
    rw [taken]
    exact ⟨fun some => absurd none some, by simp [none], fun _ => valid⟩

/-- A choice among many items is one among the recent items. -/
theorem isChoice_foldl (selects : Selects Valid key choose) (displaces : Displaces Valid choose)
    (a : α) (items : List α) : IsChoice Valid key (a :: items) (items.foldl choose a) := by
  -- The recent items are those at the end, so the list grows at its end.
  induction items using List.reverseRecOn with
  | nil =>
    by_cases valid : Valid a
    -- One valid item is the only recent one.
    · have only : recent Valid [a] = [a] := recent_of_valid (by simpa using valid)
      exact ⟨fun _ => by simp [only], by simp [only], by simp [only]⟩
    -- One that is not valid leaves none, and it is what is kept.
    · have none : recent Valid [a] = [] := recent_concat_of_not_valid Valid [] valid
      exact ⟨fun some => absurd none some, by simp [none], fun _ => valid⟩
  | append_singleton items item ih =>
    -- Each further item is a single choice between it and the one kept so far.
    rw [List.foldl_concat]
    exact ih.concat selects displaces item

end Recent

end Fractal
