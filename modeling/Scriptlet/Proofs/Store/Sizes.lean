import Scriptlet.Proofs.Store.Readback

/-!
Contract: how far the slots of arrays reach, and how long the lists are that they are
loaded from and read back as.

Owns:
- the longest list at any depth of a value or a state;
- stores whose slots all stand below a bound, which allocating, writing, copying and
  loading keep, also where copying fails;
- values that are read back from such a store, in which no list is longer than the bound.

Slots that were not set are read back as zeros between those that were, so the length of
a list is told by its last slot and not by their number.
-/

namespace Scriptlet

/-! ## Lists of values -/

namespace StateValue

mutual

/-- Length of the longest list in a value, 0 for an integer. -/
def longestList : StateValue → Nat
  | .integer _ => 0
  | .list items => max items.length (longestListOfItems items)

/-- Length of the longest list in the items of a list. -/
def longestListOfItems : List StateValue → Nat
  | [] => 0
  | item :: rest => max item.longestList (longestListOfItems rest)

end

theorem longestListOfItems_le_iff {bound : Nat} {items : List StateValue} :
    longestListOfItems items ≤ bound ↔ ∀ item ∈ items, item.longestList ≤ bound := by
  induction items with
  | nil => simp [longestListOfItems]
  | cons first rest inductionHypothesis =>
      rw [longestListOfItems, Nat.max_le, inductionHypothesis, List.forall_mem_cons]

/-- Whether no list at any depth of a value is longer than a bound. -/
def ListsUpTo (bound : Nat) (value : StateValue) : Prop :=
  ∀ items, (list items).Inside value → items.length ≤ bound

theorem listsUpTo_integer (bound : Nat) (number : Int64) : (integer number).ListsUpTo bound := by
  intro items inside
  cases inside

theorem listsUpTo_list_iff {bound : Nat} {items : List StateValue} :
    (list items).ListsUpTo bound ↔
      items.length ≤ bound ∧ ∀ item ∈ items, item.ListsUpTo bound := by
  constructor
  · intro upTo
    exact ⟨upTo items (.self _), fun item member inner inside => upTo inner (.item member inside)⟩
  · rintro ⟨short, upTo⟩ inner inside
    cases inside with
    | self => exact short
    | item member inside => exact upTo _ member inner inside

/-- The longest list is one of those at any depth. -/
theorem longestList_le_iff {bound : Nat} {value : StateValue} :
    value.longestList ≤ bound ↔ value.ListsUpTo bound := by
  cases value with
  | integer number => simp [longestList, listsUpTo_integer]
  | list items =>
      have sameItems : ∀ item ∈ items, item.longestList ≤ bound ↔ item.ListsUpTo bound :=
        fun item member => longestList_le_iff
      rw [longestList, Nat.max_le, longestListOfItems_le_iff, listsUpTo_list_iff]
      exact and_congr_right fun _ => forall₂_congr sameItems

end StateValue

/-- Length of the longest list at any depth of a state, 0 if there is none. -/
def State.longestList (state : State) : Nat :=
  state.foldl (fun longest _ value => max longest value.longestList) 0

/-! ## Slots below a bound -/

/-- Whether all slots that are set stand below a bound. -/
def Slots.Below (bound : Nat) (slots : Slots) : Prop :=
  ∀ index ∈ slots, index < bound

theorem Slots.below_empty (bound : Nat) : Below bound ∅ := by
  intro index member
  simp at member

theorem Slots.Below.insert {bound index : Nat} {slots : Slots} (below : slots.Below bound)
    (inside : index < bound) (value : Value) : Below bound (slots.insert index value) := by
  intro other member
  rw [Std.ExtTreeMap.mem_insert, Nat.compare_eq_eq] at member
  rcases member with rfl | member
  · exact inside
  · exact below other member

theorem Slots.Below.mono {bound more : Nat} {slots : Slots} (below : slots.Below bound)
    (atMost : bound ≤ more) : slots.Below more :=
  fun index member => Nat.lt_of_lt_of_le (below index member) atMost

namespace Store

open StateValue

/-- Whether the slots of all arrays of a store stand below a bound. -/
def SlotsBelow (bound : Nat) (store : Store) : Prop :=
  ∀ location, (store.slots location).Below bound

variable {bound : Nat} {store newer : Store}

theorem slotsBelow_empty (bound : Nat) : Store.empty.SlotsBelow bound :=
  fun _ => Slots.below_empty bound

theorem SlotsBelow.allocate (slotsBelow : store.SlotsBelow bound) (level : Nat) {slots : Slots}
    (below : slots.Below bound) : (store.allocate ⟨level, slots⟩).2.SlotsBelow bound := by
  intro location
  show (Store.slots ⟨store.cells.push ⟨level, slots⟩⟩ location).Below bound
  rw [slots_push]
  split
  · exact below
  · exact slotsBelow location

theorem SlotsBelow.write (slotsBelow : store.SlotsBelow bound) (location : Nat) {index : Nat}
    (inside : index < bound) (value : Value) :
    (store.write location index value).SlotsBelow bound := by
  intro other
  by_cases isTarget : other = location
  · subst isTarget
    by_cases allocated : other < store.cells.size
    · rw [slots_write_self allocated]
      exact (slotsBelow other).insert inside value
    · rw [slots_of_size_le (by rw [size_write]; exact Nat.le_of_not_lt allocated)]
      exact Slots.below_empty bound
  · rw [slots_write_of_ne isTarget]
    exact slotsBelow other

/-! ## Copying -/

/-- Whether a step ends in a store whose slots stand below a bound, with a result that
`post` holds of if it succeeds. -/
def EndsBelow {α : Type} (bound : Nat) (post : α → Prop) :
    EStateM.Result RunError Store α → Prop
  | .ok result newer => newer.SlotsBelow bound ∧ post result
  | .error _ newer => newer.SlotsBelow bound

theorem EndsBelow.bind {α β : Type} {action : Copying α} {next : α → Copying β}
    {post : α → Prop} {nextPost : β → Prop} (ends : EndsBelow bound post (action store))
    (rest : ∀ {result newer}, newer.SlotsBelow bound → post result →
      EndsBelow bound nextPost (next result newer)) :
    EndsBelow bound nextPost ((action >>= next) store) := by
  show EndsBelow bound nextPost (EStateM.bind action next store)
  unfold EStateM.bind
  cases outcome : action store with
  | ok result newer =>
      rw [outcome] at ends
      exact rest ends.1 ends.2
  | error error newer =>
      rw [outcome] at ends
      exact ends

/-- Copies of entries stand where the entries do. -/
theorem endsBelow_copyEntries {copy : Value → Copying Value}
    (copies : ∀ value {store : Store}, store.SlotsBelow bound →
      EndsBelow bound (fun _ => True) (copy value store))
    {entries : List (Nat × Value)} {slots : Slots} (slotsBelow : store.SlotsBelow bound)
    (inside : ∀ entry ∈ entries, entry.1 < bound) (below : slots.Below bound) :
    EndsBelow bound (Slots.Below bound) (copyEntries copy slots entries store) := by
  induction entries generalizing slots store with
  | nil => exact ⟨slotsBelow, below⟩
  | cons entry rest inductionHypothesis =>
      obtain ⟨index, value⟩ := entry
      rw [List.forall_mem_cons] at inside
      refine (copies value slotsBelow).bind fun {copied newer} newerBelow _ => ?_
      exact inductionHypothesis newerBelow inside.2 (below.insert inside.1 copied)

theorem endsBelow_copyInRoom (room : Nat) (value : Value) (slotsBelow : store.SlotsBelow bound) :
    EndsBelow bound (fun _ => True) (copyInRoom room value store) := by
  induction room generalizing value store with
  | zero =>
      cases value with
      | array location => exact slotsBelow
      | integer | function => exact ⟨slotsBelow, trivial⟩
  | succ room inductionHypothesis =>
      cases value with
      | integer | function => exact ⟨slotsBelow, trivial⟩
      | array location =>
          have inside : ∀ entry ∈ (store.slots location).toList, entry.1 < bound := by
            intro entry member
            apply slotsBelow location
            rw [Std.ExtTreeMap.mem_iff_isSome_getElem?,
              Std.ExtTreeMap.mem_toList_iff_getElem?_eq_some.mp member]
            rfl
          have filled := endsBelow_copyEntries (fun value _ => inductionHypothesis value)
            slotsBelow inside (Slots.below_empty bound)
          exact filled.bind fun newerBelow below => ⟨newerBelow.allocate _ below, trivial⟩

/-! ## Loading and reading back -/

mutual

theorem SlotsBelow.load {store : Store} {bound : Nat} (slotsBelow : store.SlotsBelow bound)
    (level : Nat) {value : StateValue} (upTo : value.ListsUpTo bound) :
    (store.load level value).2.SlotsBelow bound := by
  match value with
  | .integer number => exact slotsBelow
  | .list items =>
      obtain ⟨short, upTo⟩ := listsUpTo_list_iff.mp upTo
      obtain ⟨slotsBelow, below⟩ := slotsBelow.loadItems (level + 1) (Slots.below_empty bound)
        upTo (by rw [Nat.zero_add]; exact short)
      exact slotsBelow.allocate level below

theorem SlotsBelow.loadItems {store : Store} {bound : Nat} (slotsBelow : store.SlotsBelow bound)
    (level : Nat) {index : Nat} {slots : Slots} (below : slots.Below bound)
    {items : List StateValue} (upTo : ∀ item ∈ items, item.ListsUpTo bound)
    (short : index + items.length ≤ bound) :
    (store.loadItems level index slots items).2.SlotsBelow bound ∧
      (store.loadItems level index slots items).1.Below bound := by
  match items with
  | [] => exact ⟨slotsBelow, below⟩
  | item :: rest =>
      rw [List.forall_mem_cons] at upTo
      rw [List.length_cons] at short
      have below := below.insert (show index < bound by omega) (store.load level item).1
      exact (slotsBelow.load level upTo.1).loadItems level below upTo.2 (by omega)

end

theorem SlotsBelow.read_eq_zero (slotsBelow : store.SlotsBelow bound) (location : Nat)
    {index : Nat} (past : bound ≤ index) : store.read location index = .integer 0 :=
  Std.ExtTreeMap.getD_eq_fallback fun member =>
    Nat.not_lt_of_le past (slotsBelow location index member)

/-- A list that is read back ends with a slot that was set. -/
theorem SlotsBelow.length_le (slotsBelow : store.SlotsBelow bound) {height location : Nat}
    {items : List StateValue} (trimmed : Trimmed items)
    (isItem : ∀ index, itemAt items index =
      store.readsAs height (store.read location index)) : items.length ≤ bound := by
  have sameTaken : ∀ index, itemAt items index =
      itemAt (items.take bound) index := by
    intro index
    by_cases inside : index < bound
    · simp [itemAt, inside]
    · have past := Nat.le_of_not_lt inside
      have taken : (items.take bound).length ≤ index :=
        Nat.le_trans (List.length_take_le _ _) past
      rw [isItem, slotsBelow.read_eq_zero location past, itemAt_of_length_le taken]
      cases height <;> rfl
  exact Nat.le_trans (trimmed.length_le sameTaken) (List.length_take_le _ _)

/-- No list of a value that is read back reaches past the slots of the store. -/
theorem SlotsBelow.listsUpTo (slotsBelow : store.SlotsBelow bound) {height : Nat} {value : Value}
    {found : StateValue} (reads : store.stateValueUpTo height value = some found) :
    found.ListsUpTo bound := by
  apply holds_of_stateValueUpTo (listsUpTo_integer bound) _ _ reads
  · exact listsUpTo_list_iff.mpr ⟨Nat.zero_le bound, nofun⟩
  · exact fun trimmed isItem upTo =>
      listsUpTo_list_iff.mpr ⟨slotsBelow.length_le trimmed isItem, upTo⟩

end Store

end Scriptlet
