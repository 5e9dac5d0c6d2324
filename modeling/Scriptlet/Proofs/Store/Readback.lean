import Scriptlet.Proofs.State.Norm
import Scriptlet.Proofs.Store.Snapshot

/-!
Contract: what arrays read back as, index by index, and what loaded values read
back as.

Owns:
- an array reads back as the list that ends with no zero and holds, at each
  index, what the slot reads back as;
- loading extends the store, and the arrays it makes hold only one another;
- a value that was loaded reads back as its normal form.
-/

namespace Scriptlet

open StateValue

namespace Store

variable {store older middle newer : Store} {deepest : Nat}

/-! ## Dense lists -/

/-- In entries with ascending indexes, the last one that is not zero gives the
extent. -/
theorem foldl_extent {entries : List (Nat × StateValue)}
    (ascending : entries.Pairwise fun first second => first.1 < second.1) :
    (∀ entry ∈ entries,
        entries.foldl (fun found entry => if entry.2.isZero then found else entry.1 + 1) 0 ≤
          entry.1 → entry.2 = .integer 0) ∧
      ∀ last, entries.foldl (fun found entry => if entry.2.isZero then found else entry.1 + 1) 0 =
        last + 1 → ∃ item, (last, item) ∈ entries ∧ item ≠ .integer 0 := by
  induction entries using List.reverseRecOn with
  | nil => exact ⟨nofun, nofun⟩
  | append_singleton front entry inductionHypothesis =>
      obtain ⟨frontAscending, _, below⟩ := List.pairwise_append.mp ascending
      obtain ⟨zeros, found⟩ := inductionHypothesis frontAscending
      simp only [List.foldl_append, List.foldl_cons, List.foldl_nil, List.mem_append,
        List.mem_singleton]
      by_cases zero : entry.2.isZero = true
      · rw [if_pos zero]
        refine ⟨?_, fun last isLast => ?_⟩
        · rintro other (member | rfl)
          · exact zeros other member
          · exact fun _ => isZero_iff.mp zero
        · obtain ⟨item, member, notZero⟩ := found last isLast
          exact ⟨item, .inl member, notZero⟩
      · rw [if_neg zero]
        refine ⟨?_, fun last isLast => ?_⟩
        · rintro other (member | rfl) past
          · have before := below other member entry List.mem_cons_self
            omega
          · omega
        · cases isLast
          exact ⟨entry.2, .inr rfl, fun isZero => zero (isZero_iff.mpr isZero)⟩

theorem extent_spec (items : Std.ExtTreeMap Nat StateValue) :
    (∀ index, extent items ≤ index → items.getD index (.integer 0) = .integer 0) ∧
      ∀ last, extent items = last + 1 → items.getD last (.integer 0) ≠ .integer 0 := by
  have ascending : items.toList.Pairwise fun first second => first.1 < second.1 :=
    items.ordered_keys_toList.imp Nat.compare_eq_lt.mp
  obtain ⟨zeros, found⟩ := foldl_extent ascending
  rw [extent, Std.ExtTreeMap.foldl_eq_foldl_toList]
  refine ⟨fun index past => ?_, fun last isLast => ?_⟩
  · rw [Std.ExtTreeMap.getD_eq_getD_getElem?]
    cases isItem : items[index]? with
    | none => rfl
    | some item =>
        exact zeros (index, item) (Std.ExtTreeMap.mem_toList_iff_getElem?_eq_some.mpr isItem) past
  · obtain ⟨item, member, notZero⟩ := found last isLast
    rw [Std.ExtTreeMap.mem_toList_iff_getElem?_eq_some] at member
    rw [Std.ExtTreeMap.getD_eq_getD_getElem?, member]
    exact notZero

/-- The dense list holds what the items do at each index. -/
theorem itemAt_denseList (items : Std.ExtTreeMap Nat StateValue) (index : Nat) :
    itemAt (denseList items) index = items.getD index (.integer 0) := by
  by_cases inside : index < extent items
  · simp [itemAt, denseList, List.getD_eq_getElem?_getD, inside]
  · rw [(extent_spec items).1 index (Nat.le_of_not_lt inside)]
    apply itemAt_of_length_le
    simpa [denseList] using inside

theorem trimmed_denseList (items : Std.ExtTreeMap Nat StateValue) :
    Trimmed (denseList items) := by
  intro front isList
  have isExtent : extent items = front.length + 1 := by
    have lengths := congrArg List.length isList
    simpa [denseList] using lengths
  apply (extent_spec items).2 front.length isExtent
  rw [← itemAt_denseList, isList, itemAt_append_zero, itemAt_of_length_le (Nat.le_refl _)]

/-! ## Arrays -/

/-- What a value reads back as where a list has to hold something. -/
def readsAs (store : Store) (height : Nat) (value : Value) : StateValue :=
  (store.stateValueUpTo height value).getD (.integer 0)

theorem getD_map_slots (slots : Slots) {read : Value → StateValue}
    (zero : read (.integer 0) = .integer 0) (index : Nat) :
    (slots.map fun _ => read).getD index (.integer 0) = read (slots.getD index (.integer 0)) := by
  rw [Std.ExtTreeMap.getD_eq_getD_getElem?, Std.ExtTreeMap.getD_eq_getD_getElem?,
    Std.ExtTreeMap.getElem?_map]
  cases slots[index]? with
  | none => exact zero.symm
  | some value => rfl

/-- An array reads back as a list that does not end with zero and holds at each
index what the slot reads back as. -/
theorem exists_items_of_array (store : Store) (height location : Nat) :
    ∃ items, store.stateValueUpTo (height + 1) (.array location) = some (.list items) ∧
      Trimmed items ∧
      ∀ index, itemAt items index = store.readsAs height (store.read location index) := by
  refine ⟨_, rfl, trimmed_denseList _, fun index => ?_⟩
  rw [itemAt_denseList]
  exact getD_map_slots (store.slots location) (by cases height <;> rfl) index

/-- What holds of integers and of the lists that arrays read back as, if it holds of their
items, holds of whatever is read back. -/
theorem holds_of_stateValueUpTo {store : Store} {Holds : StateValue → Prop}
    (integer : ∀ number, Holds (.integer number)) (empty : Holds (.list []))
    (array : ∀ {height location : Nat} {items : List StateValue}, Trimmed items →
      (∀ index, itemAt items index = store.readsAs height (store.read location index)) →
      (∀ item ∈ items, Holds item) → Holds (.list items))
    {height : Nat} {value : Value} {found : StateValue}
    (reads : store.stateValueUpTo height value = some found) : Holds found := by
  induction height generalizing value found with
  | zero =>
      cases value with
      | integer number =>
          cases reads
          exact integer number
      | array location =>
          cases reads
          exact empty
      | function declaration => cases reads
  | succ height inductionHypothesis =>
      cases value with
      | integer number =>
          cases reads
          exact integer number
      | function declaration => cases reads
      | array location =>
          obtain ⟨items, isList, trimmed, isItem⟩ := store.exists_items_of_array height location
          rw [isList] at reads
          cases reads
          refine array trimmed isItem fun item member => ?_
          obtain ⟨index, inside, rfl⟩ := List.getElem_of_mem member
          have isSlot := isItem index
          rw [itemAt, List.getD_eq_getElem _ _ inside] at isSlot
          rw [isSlot, readsAs]
          cases slot : store.stateValueUpTo height (store.read location index) with
          | none => exact integer 0
          | some value => exact inductionHypothesis slot

/-- Arrays whose slots read back alike read back as the same list. -/
theorem stateValueUpTo_array_congr {first second : Store} {height location other : Nat}
    (same : ∀ index, first.readsAs height (first.read location index) =
      second.readsAs height (second.read other index)) :
    first.stateValueUpTo (height + 1) (.array location) =
      second.stateValueUpTo (height + 1) (.array other) := by
  obtain ⟨items, isList, trimmed, isItem⟩ := first.exists_items_of_array height location
  obtain ⟨others, isOther, otherTrimmed, isOtherItem⟩ := second.exists_items_of_array height other
  rw [isList, isOther, trimmed.eq_of_itemAt_eq otherTrimmed fun index => ?_]
  rw [isItem, isOtherItem, same]

/-! ## Loading -/

theorem loadItems_cons (store : Store) (level index : Nat) (slots : Slots) (item : StateValue)
    (rest : List StateValue) :
    store.loadItems level index slots (item :: rest) =
      (store.load level item).2.loadItems level (index + 1)
        (slots.insert index (store.load level item).1) rest := rfl

mutual

/-- Loading extends the store. -/
theorem extends_load (store : Store) (level : Nat) (value : StateValue) :
    Extends store (store.load level value).2 := by
  match value with
  | .integer number => exact .refl store
  | .list items =>
      exact (extends_loadItems store (level + 1) 0 ∅ items).trans (extends_allocate _ _)

theorem extends_loadItems (store : Store) (level index : Nat) (slots : Slots)
    (items : List StateValue) : Extends store (store.loadItems level index slots items).2 := by
  match items with
  | [] => exact .refl store
  | item :: rest =>
      exact (extends_load store level item).trans (extends_loadItems _ level (index + 1) _ rest)

end

mutual

/-- Loading keeps holders, and the arrays it makes are new. -/
theorem KeepsHolders.load {older newer : Store} (keeps : KeepsHolders older newer) (level : Nat)
    (value : StateValue) :
    KeepsHolders older (newer.load level value).2 ∧
      older.MadeSince (newer.load level value).1 := by
  match value with
  | .integer number => exact ⟨keeps, nofun⟩
  | .list items =>
      have unset : ∀ {other : Nat} {value : Value}, (∅ : Slots)[other]? = some value →
          older.MadeSince value := by
        intro other value found
        simp at found
      obtain ⟨filledKeeps, made⟩ := keeps.loadItems (level + 1) 0 unset items
      refine ⟨filledKeeps.allocate level made, ?_⟩
      rintro _ ⟨⟩
      exact filledKeeps.size_le

theorem KeepsHolders.loadItems {older newer : Store} (keeps : KeepsHolders older newer)
    (level index : Nat) {slots : Slots}
    (made : ∀ {other : Nat} {value : Value}, slots[other]? = some value → older.MadeSince value)
    (items : List StateValue) :
    KeepsHolders older (newer.loadItems level index slots items).2 ∧
      ∀ {other : Nat} {value : Value},
        (newer.loadItems level index slots items).1[other]? = some value →
          older.MadeSince value := by
  match items with
  | [] => exact ⟨keeps, made⟩
  | item :: rest =>
      obtain ⟨itemKeeps, itemMade⟩ := keeps.load level item
      refine itemKeeps.loadItems level (index + 1) (fun {other value} found => ?_) rest
      rw [getElem?_insert_slots] at found
      split at found
      · cases found
        exact itemMade
      · exact made found

end

theorem getD_insert_slots (slots : Slots) (index other : Nat) (value : Value) :
    (slots.insert index value).getD other (.integer 0) =
      if index = other then value else slots.getD other (.integer 0) := by
  rw [Std.ExtTreeMap.getD_eq_getD_getElem?, getElem?_insert_slots]
  split
  · rfl
  · rw [Std.ExtTreeMap.getD_eq_getD_getElem?]

/-- Whether no slot from a bound on holds anything but zero. -/
def UnsetFrom (bound : Nat) (slots : Slots) : Prop :=
  ∀ index, bound ≤ index → slots.getD index (.integer 0) = .integer 0

theorem unsetFrom_empty (bound : Nat) : UnsetFrom bound ∅ :=
  fun _ _ => Std.ExtTreeMap.getD_empty

theorem UnsetFrom.insert {bound index : Nat} {slots : Slots} (unset : UnsetFrom bound slots)
    (above : bound ≤ index) (value : Value) : UnsetFrom (index + 1) (slots.insert index value) := by
  intro other later
  rw [getD_insert_slots, if_neg (by omega)]
  exact unset other (by omega)

theorem UnsetFrom.raise {bound higher : Nat} {slots : Slots} (unset : UnsetFrom bound slots)
    (above : bound ≤ higher) : UnsetFrom higher slots :=
  fun index later => unset index (Nat.le_trans above later)

theorem read_allocate_self (store : Store) (cell : Cell) (index : Nat) :
    (store.allocate cell).2.read store.cells.size index = cell.slots.getD index (.integer 0) := by
  show (Store.slots ⟨store.cells.push cell⟩ _).getD _ _ = _
  rw [slots_push, if_pos rfl]

/-- What pending slots hold is in the store. -/
theorem Pending.has_getD {base : Store} {level : Nat} {slots : Slots}
    (pending : Pending base store level slots) (index : Nat) :
    store.Has (slots.getD index (.integer 0)) := by
  rw [Std.ExtTreeMap.getD_eq_getD_getElem?]
  cases found : slots[index]? with
  | none => exact nofun
  | some value => exact (pending.fresh found).has

/-- Loading items sets no slot below the first one. -/
theorem getD_loadItems_of_lt (store : Store) (level index : Nat) (slots : Slots)
    (items : List StateValue) {other : Nat} (below : other < index) :
    (store.loadItems level index slots items).1.getD other (.integer 0) =
      slots.getD other (.integer 0) := by
  induction items generalizing store index slots with
  | nil => rfl
  | cons item rest inductionHypothesis =>
      rw [loadItems_cons, inductionHypothesis _ _ _ (Nat.lt_succ_of_lt below), getD_insert_slots,
        if_neg (Nat.ne_of_gt below)]

mutual

/-- A value that was loaded reads back as its normal form, from a height that is
enough for its lists. -/
theorem Labelled.stateValueUpTo_load {store : Store} {deepest : Nat}
    (labelled : store.Labelled deepest) (level : Nat) (value : StateValue)
    (below : level + value.nesting ≤ deepest + 1) {height : Nat}
    (enough : value.nesting ≤ height) :
    (store.load level value).2.stateValueUpTo height (store.load level value).1 =
      some value.norm := by
  match value with
  | .integer number => cases height <;> rfl
  | .list items =>
      rw [StateValue.nesting] at below enough
      cases height with
      | zero => omega
      | succ height =>
          obtain ⟨listed, isList, trimmed, isItem⟩ :=
            (store.load level (.list items)).2.exists_items_of_array height
              (store.loadItems (level + 1) 0 ∅ items).2.cells.size
          obtain ⟨normTrimmed, isNormItem⟩ := itemAt_rdropWhile_isZero (items.map norm)
          have sameItems : listed = (items.map norm).rdropWhile isZero := by
            apply trimmed.eq_of_itemAt_eq normTrimmed
            intro index
            rw [isItem, isNormItem, itemAt_map_norm]
            -- The new array has the loaded slots, and what they hold was there before it.
            have isSlot := labelled.stateValueUpTo_loadItems (level + 1) 0 ∅ items (by omega)
              (unsetFrom_empty 0) (Nat.le_of_succ_le_succ enough) index
            obtain ⟨filledLabelled, _, pending⟩ :=
              labelled.loadItems (level + 1) 0 items (by omega) (.refl store) pending_empty
            rw [Nat.zero_add] at isSlot
            rw [readsAs, Store.load, read_allocate_self,
              filledLabelled.stateValueUpTo_of_extends (extends_allocate _ _)
                (pending.has_getD index), isSlot, Option.getD_some]
          rw [norm_list, ← sameItems]
          exact isList

/-- Slots that items were loaded into read back as the normal forms of the
items. -/
theorem Labelled.stateValueUpTo_loadItems {store : Store} {deepest : Nat}
    (labelled : store.Labelled deepest) (level index : Nat) (slots : Slots)
    (items : List StateValue)
    (below : level + StateValue.nestingOfItems items ≤ deepest + 1)
    (unset : UnsetFrom index slots) {height : Nat}
    (enough : StateValue.nestingOfItems items ≤ height) (offset : Nat) :
    (store.loadItems level index slots items).2.stateValueUpTo height
        ((store.loadItems level index slots items).1.getD (index + offset) (.integer 0)) =
      some (itemAt items offset).norm := by
  match items with
  | [] =>
      rw [Store.loadItems, unset _ (Nat.le_add_right _ _)]
      cases height <;> rfl
  | item :: rest =>
      rw [StateValue.nestingOfItems] at below enough
      obtain ⟨itemLabelled, _, fresh⟩ := labelled.load level item (by omega)
      rw [loadItems_cons]
      cases offset with
      | zero =>
          rw [Nat.add_zero index,
            getD_loadItems_of_lt _ level (index + 1) _ rest (Nat.lt_succ_self index),
            getD_insert_slots, if_pos rfl,
            itemLabelled.stateValueUpTo_of_extends (extends_loadItems _ _ _ _ _) fresh.has]
          exact labelled.stateValueUpTo_load level item (by omega) (by omega)
      | succ offset =>
          have isNext : index + (offset + 1) = index + 1 + offset := by omega
          rw [isNext]
          exact itemLabelled.stateValueUpTo_loadItems level (index + 1) _ rest (by omega)
            (unset.insert (Nat.le_refl index) _) (by omega) offset

end

/-- A loaded value reads back as its normal form for as long as the arrays that were
made for it are left alone. -/
theorem Labelled.stateValue_of_kept (labelled : store.Labelled deepest) (level : Nat)
    (value : StateValue) (below : level + value.nesting ≤ deepest + 1) {later : Store}
    (larger : (store.load level value).2.cells.size ≤ later.cells.size)
    (kept : ∀ {location : Nat}, store.cells.size ≤ location →
      location < (store.load level value).2.cells.size →
      later.slots location = (store.load level value).2.slots location) :
    later.stateValue (store.load level value).1 = some value.norm := by
  obtain ⟨loadedLabelled, _, fresh⟩ := labelled.load level value below
  obtain ⟨keeps, made⟩ := (KeepsHolders.refl store).load level value
  have agrees : later.stateValueUpTo later.cells.size (store.load level value).1 =
      (store.load level value).2.stateValueUpTo later.cells.size (store.load level value).1 := by
    refine stateValueUpTo_eq_of_agree (fun location => store.cells.size ≤ location ∧
      location < (store.load level value).2.cells.size) (fun inside => kept inside.1 inside.2)
      (fun inside holds => ?_) _ fun location isArray => ?_
    · exact ⟨keeps.size_le_of_reachable inside.1 (.single ⟨_, holds⟩),
        loadedLabelled.lt_size_of_holds holds⟩
    · exact ⟨made location isArray, fresh.has location isArray⟩
  have enough : (store.load level value).2.cells.size ≤ max later.cells.size value.nesting :=
    Nat.le_trans larger (Nat.le_max_left _ _)
  rw [stateValue, agrees, loadedLabelled.stateValueUpTo_eq_stateValue fresh.has larger,
    ← loadedLabelled.stateValueUpTo_eq_stateValue fresh.has enough]
  exact labelled.stateValueUpTo_load level value below (Nat.le_max_right _ _)

end Store

end Scriptlet
