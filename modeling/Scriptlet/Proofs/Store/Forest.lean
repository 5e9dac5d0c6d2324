import Scriptlet.Run.Store

/-!
Contract: the arrays of a store form a forest with correct level labels.

Owns:
- which array holds which, and the forest that a store is;
- stores that grow: labels are kept, and arrays that exist do not come to be
  held;
- slots that are being filled with arrays that nothing holds yet;
- allocating and writing keep the forest.

The label of an array is one more than that of its holder, so no array is
reachable from its own slots.  An array comes to be held only when it was made
for the slot that holds it.
-/

namespace Scriptlet

namespace Store

/-- Whether a slot of an array holds an array. -/
def Holds (store : Store) (holder index held : Nat) : Prop :=
  (store.slots holder)[index]? = some (.array held)

/-- The label of the array at a location. -/
def level? (store : Store) (location : Nat) : Option Nat :=
  store.cells[location]?.map Cell.level

/-- Arrays that are labelled with their levels, none of them above `deepest`,
and held by one slot each at most. -/
structure Labelled (store : Store) (deepest : Nat) : Prop where
  level_of_holds : ∀ {holder index held : Nat}, store.Holds holder index held →
    ∃ level, store.level? holder = some level ∧ store.level? held = some (level + 1)
  holder_unique : ∀ {first second index other held : Nat}, store.Holds first index held →
    store.Holds second other held → first = second ∧ index = other
  level_le : ∀ {location level : Nat}, store.level? location = some level → level ≤ deepest

/-- Arrays that form a forest: moreover, none is reachable from its own slots. -/
structure Forest (store : Store) (deepest : Nat) : Prop extends Labelled store deepest where
  not_reachable_self : ∀ location,
    ¬ Relation.TransGen (fun holder held => ∃ index, store.Holds holder index held)
      location location

variable {store older newer base : Store} {deepest level : Nat}

/-- Labels grow along chains of holding. -/
theorem Labelled.level_lt_of_reachable (labelled : store.Labelled deepest) {first last : Nat}
    (reachable : Relation.TransGen (fun holder held => ∃ index, store.Holds holder index held)
      first last) :
    ∃ firstLevel lastLevel, store.level? first = some firstLevel ∧
      store.level? last = some lastLevel ∧ firstLevel < lastLevel := by
  induction reachable with
  | single held =>
      obtain ⟨index, holds⟩ := held
      obtain ⟨level, isLevel, heldLevel⟩ := labelled.level_of_holds holds
      exact ⟨level, level + 1, isLevel, heldLevel, Nat.lt_succ_self level⟩
  | tail _ held inductionHypothesis =>
      obtain ⟨firstLevel, middleLevel, isFirst, isMiddle, below⟩ := inductionHypothesis
      obtain ⟨index, holds⟩ := held
      obtain ⟨level, isLevel, heldLevel⟩ := labelled.level_of_holds holds
      rw [isMiddle] at isLevel
      cases isLevel
      exact ⟨firstLevel, middleLevel + 1, isFirst, heldLevel, Nat.lt_succ_of_lt below⟩

/-- Labels forbid an array to be reachable from its own slots. -/
theorem Labelled.forest (labelled : store.Labelled deepest) : store.Forest deepest := by
  refine ⟨labelled, fun location reachable => ?_⟩
  obtain ⟨firstLevel, lastLevel, isFirst, isLast, below⟩ :=
    labelled.level_lt_of_reachable reachable
  rw [isFirst] at isLast
  cases isLast
  exact Nat.lt_irrefl _ below

/-! ## Locations -/

theorem level?_eq_some_iff {location : Nat} :
    store.level? location = some level ↔
      ∃ cell, store.cells[location]? = some cell ∧ cell.level = level := by
  simp [level?, Option.map_eq_some_iff]

theorem lt_size_of_level? {location : Nat} (isLevel : store.level? location = some level) :
    location < store.cells.size := by
  obtain ⟨cell, found, _⟩ := level?_eq_some_iff.mp isLevel
  exact (Array.getElem?_eq_some_iff.mp found).1

theorem exists_level?_of_lt {location : Nat} (inside : location < store.cells.size) :
    ∃ level, store.level? location = some level :=
  ⟨store.cells[location].level, level?_eq_some_iff.mpr
    ⟨_, Array.getElem?_eq_getElem inside, rfl⟩⟩

theorem Holds.lt_size {holder index held : Nat} (holds : store.Holds holder index held) :
    holder < store.cells.size := by
  by_cases inside : holder < store.cells.size
  · exact inside
  · have absent : store.cells[holder]? = none :=
      Array.getElem?_eq_none (Nat.le_of_not_lt inside)
    simp [Holds, slots, absent] at holds

/-! ## Growing stores -/

/-- Whether nothing holds the array at a location. -/
def Unheld (store : Store) (location : Nat) : Prop :=
  ∀ holder index, ¬ store.Holds holder index location

/-- Whether a store has come from an older one: the arrays of the older one keep
their labels, and do not come to be held. -/
structure Grows (older newer : Store) : Prop where
  level_kept : ∀ {location level : Nat}, older.level? location = some level →
    newer.level? location = some level
  unheld_kept : ∀ {location : Nat}, location < older.cells.size → older.Unheld location →
    newer.Unheld location

theorem Grows.refl (store : Store) : Grows store store := ⟨id, fun _ => id⟩

theorem Grows.size_le (grows : Grows older newer) : older.cells.size ≤ newer.cells.size := by
  by_cases empty : older.cells.size = 0
  · omega
  · have inside : older.cells.size - 1 < older.cells.size := by omega
    obtain ⟨level, isLevel⟩ := exists_level?_of_lt inside
    have below := lt_size_of_level? (grows.level_kept isLevel)
    omega

theorem Grows.trans (first : Grows base older) (second : Grows older newer) :
    Grows base newer where
  level_kept isLevel := second.level_kept (first.level_kept isLevel)
  unheld_kept inside unheld :=
    second.unheld_kept (Nat.lt_of_lt_of_le inside first.size_le) (first.unheld_kept inside unheld)

/-- Whether a value, if it is an array, was made since the older store, stands at
a level and is not held. -/
def Fresh (older newer : Store) (level : Nat) (value : Value) : Prop :=
  ∀ location, value = .array location →
    older.cells.size ≤ location ∧ newer.level? location = some level ∧ newer.Unheld location

/-- Whether the array that a value refers to, if it does, is in the store. -/
def Has (store : Store) (value : Value) : Prop :=
  ∀ location, value = .array location → location < store.cells.size

theorem Has.grow {value : Value} (has : older.Has value) (grows : Grows older newer) :
    newer.Has value :=
  fun location isArray => Nat.lt_of_lt_of_le (has location isArray) grows.size_le

theorem Has.allocate {value : Value} (has : store.Has value) (cell : Cell) :
    (store.allocate cell).2.Has value := by
  intro location isArray
  have inside := has location isArray
  simp only [Store.allocate, Array.size_push]
  omega

theorem Fresh.has {value : Value} (fresh : Fresh older newer level value) : newer.Has value :=
  fun location isArray => lt_size_of_level? (fresh location isArray).2.1

/-- What a slot holds is in the store. -/
theorem Labelled.has_read (labelled : store.Labelled deepest) (location index : Nat) :
    store.Has (store.read location index) := by
  intro held isArray
  have holds : store.Holds location index held := by
    unfold read at isArray
    rw [Std.ExtTreeMap.getD_eq_getD_getElem?] at isArray
    cases found : (store.slots location)[index]? with
    | none => simp [found] at isArray
    | some value =>
        rw [found] at isArray
        exact found.trans (congrArg some isArray)
  obtain ⟨level, _, heldLevel⟩ := labelled.level_of_holds holds
  exact lt_size_of_level? heldLevel

/-- Slots that are being filled: their arrays were made since the base store,
stand at one level, are not held, and stand in one slot each. -/
structure Pending (base store : Store) (level : Nat) (slots : Slots) : Prop where
  fresh : ∀ {index : Nat} {value : Value}, slots[index]? = some value →
    Fresh base store level value
  distinct : ∀ {index other location : Nat}, slots[index]? = some (.array location) →
    slots[other]? = some (.array location) → index = other

theorem pending_empty : Pending base store level ∅ := by
  constructor
  · intro index value found
    simp at found
  · intro index other location found
    simp at found

theorem getElem?_insert_slots (slots : Slots) (index other : Nat) (value : Value) :
    (slots.insert index value)[other]? = if index = other then some value else slots[other]? := by
  rw [Std.ExtTreeMap.getElem?_insert]
  simp only [Nat.compare_eq_eq]

/-- Pending slots stay pending while the store grows. -/
theorem Pending.grow {slots : Slots} (pending : Pending base older level slots)
    (grows : Grows older newer) : Pending base newer level slots where
  fresh found location isArray := by
    obtain ⟨isNew, isLevel, unheld⟩ := pending.fresh found location isArray
    exact ⟨isNew, grows.level_kept isLevel, grows.unheld_kept (lt_size_of_level? isLevel) unheld⟩
  distinct := pending.distinct

/-- A fresh value goes into the next slot. -/
theorem Pending.insert {slots : Slots} (pending : Pending base older level slots)
    (known : Grows base older) (grows : Grows older newer) {value : Value}
    (fresh : Fresh older newer level value) (index : Nat) :
    Pending base newer level (slots.insert index value) := by
  -- An array that was pending existed before the fresh one was made.
  have older_lt : ∀ {other location : Nat}, slots[other]? = some (Value.array location) →
      location < older.cells.size := by
    intro other location found
    exact lt_size_of_level? (pending.fresh found location rfl).2.1
  constructor
  · intro other found isFound location isArray
    rw [getElem?_insert_slots] at isFound
    split at isFound
    · cases isFound
      obtain ⟨isNew, isLevel, unheld⟩ := fresh location isArray
      exact ⟨Nat.le_trans known.size_le isNew, isLevel, unheld⟩
    · exact (pending.grow grows).fresh isFound location isArray
  · intro first second location firstFound secondFound
    rw [getElem?_insert_slots] at firstFound secondFound
    split at firstFound
    · next isFirst =>
        split at secondFound
        · next isSecond => exact isFirst.symm.trans isSecond
        · cases firstFound
          have isNew := (fresh location rfl).1
          have isOld := older_lt secondFound
          omega
    · split at secondFound
      · cases secondFound
        have isNew := (fresh location rfl).1
        have isOld := older_lt firstFound
        omega
      · exact pending.distinct firstFound secondFound

/-! ## Allocating -/

theorem level?_push (store : Store) (cell : Cell) (location : Nat) :
    (⟨store.cells.push cell⟩ : Store).level? location =
      if location = store.cells.size then some cell.level else store.level? location := by
  simp only [level?, Array.getElem?_push]
  split <;> rfl

theorem holds_push {cell : Cell} {holder index held : Nat} :
    (⟨store.cells.push cell⟩ : Store).Holds holder index held ↔
      (holder = store.cells.size ∧ cell.slots[index]? = some (.array held)) ∨
        store.Holds holder index held := by
  by_cases isNew : holder = store.cells.size
  · simp [Holds, slots, isNew]
  · simp [Holds, slots, Array.getElem?_push, isNew]

/-- Making an array of pending slots keeps the forest, and nothing holds the new
array. -/
theorem Labelled.allocate {slots : Slots} (labelled : store.Labelled deepest)
    (pending : Pending base store (level + 1) slots) (grows : Grows base store)
    (below : level ≤ deepest) :
    (store.allocate ⟨level, slots⟩).2.Labelled deepest ∧
      Grows base (store.allocate ⟨level, slots⟩).2 ∧
      Fresh base (store.allocate ⟨level, slots⟩).2 level
        (store.allocate ⟨level, slots⟩).1 := by
  simp only [Store.allocate]
  have keeps : ∀ {location found : Nat}, store.level? location = some found →
      (⟨store.cells.push ⟨level, slots⟩⟩ : Store).level? location = some found := by
    intro location found isLevel
    have inside := lt_size_of_level? isLevel
    rw [level?_push, if_neg (by omega)]
    exact isLevel
  have newLevel : (⟨store.cells.push ⟨level, slots⟩⟩ : Store).level? store.cells.size =
      some level := by
    rw [level?_push, if_pos rfl]
  refine ⟨⟨?_, ?_, ?_⟩, ⟨?_, ?_⟩, ?_⟩
  · intro holder index held holds
    rcases holds_push.mp holds with ⟨rfl, found⟩ | holds
    · exact ⟨level, newLevel, keeps (pending.fresh found held rfl).2.1⟩
    · obtain ⟨holderLevel, isLevel, heldLevel⟩ := labelled.level_of_holds holds
      exact ⟨holderLevel, keeps isLevel, keeps heldLevel⟩
  · intro first second index other held firstHolds secondHolds
    rcases holds_push.mp firstHolds with ⟨isNew, found⟩ | firstHolds
    · rcases holds_push.mp secondHolds with ⟨alsoNew, alsoFound⟩ | secondHolds
      · exact ⟨isNew.trans alsoNew.symm, pending.distinct found alsoFound⟩
      · exact absurd secondHolds ((pending.fresh found held rfl).2.2 _ _)
    · rcases holds_push.mp secondHolds with ⟨alsoNew, alsoFound⟩ | secondHolds
      · exact absurd firstHolds ((pending.fresh alsoFound held rfl).2.2 _ _)
      · exact labelled.holder_unique firstHolds secondHolds
  · intro location found isLevel
    rw [level?_push] at isLevel
    split at isLevel
    · cases isLevel
      exact below
    · exact labelled.level_le isLevel
  · exact fun isLevel => keeps (grows.level_kept isLevel)
  · intro location inside unheld holder index holds
    rcases holds_push.mp holds with ⟨_, found⟩ | holds
    · have isNew := (pending.fresh found location rfl).1
      omega
    · exact grows.unheld_kept inside unheld holder index holds
  · intro location isArray
    cases isArray
    refine ⟨grows.size_le, newLevel, fun holder index holds => ?_⟩
    rcases holds_push.mp holds with ⟨_, found⟩ | holds
    · have inside := lt_size_of_level? (pending.fresh found _ rfl).2.1
      omega
    · obtain ⟨_, _, heldLevel⟩ := labelled.level_of_holds holds
      have inside := lt_size_of_level? heldLevel
      omega

/-! ## Writing -/

theorem level?_write (store : Store) (location index other : Nat) (value : Value) :
    (store.write location index value).level? other = store.level? other := by
  simp only [level?, write, Array.getElem?_modify]
  split
  · simp [Option.map_map, Function.comp_def]
  · rfl

theorem holds_write {location index holder other held : Nat} {value : Value}
    (holds : (store.write location index value).Holds holder other held) :
    (holder = location ∧ other = index ∧ value = .array held) ∨
      store.Holds holder other held := by
  simp only [Holds, slots, write, Array.getElem?_modify] at holds ⊢
  by_cases isTarget : location = holder
  · subst isTarget
    cases found : store.cells[location]? with
    | none => simp [found] at holds
    | some cell =>
        simp only [found, if_pos, Option.map_some] at holds ⊢
        rw [getElem?_insert_slots] at holds
        split at holds
        · next isIndex =>
            cases holds
            exact .inl ⟨trivial, isIndex.symm, rfl⟩
        · exact .inr holds
  · simp only [isTarget, if_false] at holds
    exact .inr holds

/-- Writing a fresh value of the right level keeps the forest. -/
theorem Labelled.write {location : Nat} {value : Value} (labelled : newer.Labelled deepest)
    (grows : Grows older newer) (isLevel : newer.level? location = some level)
    (fresh : Fresh older newer (level + 1) value) (index : Nat) :
    (newer.write location index value).Labelled deepest ∧
      Grows older (newer.write location index value) := by
  refine ⟨⟨?_, ?_, ?_⟩, ⟨?_, ?_⟩⟩
  · intro holder other held holds
    rw [level?_write, level?_write]
    rcases holds_write holds with ⟨rfl, _, rfl⟩ | holds
    · exact ⟨level, isLevel, (fresh held rfl).2.1⟩
    · exact labelled.level_of_holds holds
  · intro first second firstIndex secondIndex held firstHolds secondHolds
    rcases holds_write firstHolds with ⟨isTarget, isIndex, rfl⟩ | firstHolds
    · rcases holds_write secondHolds with ⟨alsoTarget, alsoIndex, _⟩ | secondHolds
      · exact ⟨isTarget.trans alsoTarget.symm, isIndex.trans alsoIndex.symm⟩
      · exact absurd secondHolds ((fresh held rfl).2.2 _ _)
    · rcases holds_write secondHolds with ⟨_, _, isHeld⟩ | secondHolds
      · exact absurd firstHolds ((fresh held isHeld).2.2 _ _)
      · exact labelled.holder_unique firstHolds secondHolds
  · intro other found isFound
    rw [level?_write] at isFound
    exact labelled.level_le isFound
  · intro other found isFound
    rw [level?_write]
    exact grows.level_kept isFound
  · intro other inside unheld holder otherIndex holds
    rcases holds_write holds with ⟨_, _, rfl⟩ | holds
    · have isNew := (fresh other rfl).1
      omega
    · exact grows.unheld_kept inside unheld holder otherIndex holds

end Store

end Scriptlet
