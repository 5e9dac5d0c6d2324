import Scriptlet.Proofs.Store.Forest

/-!
Contract: copying values and loading states keep the forest of arrays.

Owns:
- what a copy is: fresh, at the level it was made for, and not held;
- how deeply the lists of a state are nested, and that loading it labels no
  array above that.

A copy is made from the leaves up.  Its arrays are pending until the array that
will hold them is made.
-/

namespace Scriptlet

namespace Store

variable {store older newer base : Store} {deepest level : Nat}

/-! ## Copying -/

/-- Whether a step leaves a forest that has grown from a base store, and a
result that `post` holds of if it succeeds. -/
def Leaves (base : Store) (deepest : Nat) {α : Type} (post : α → Store → Prop) :
    EStateM.Result RunError Store α → Prop
  | .ok result newer => newer.Labelled deepest ∧ Grows base newer ∧ post result newer
  | .error _ newer => newer.Labelled deepest ∧ Grows base newer

theorem Leaves.bind {α β : Type} {action : Copying α} {next : α → Copying β}
    {post : α → Store → Prop} {nextPost : β → Store → Prop} {store : Store}
    (leaves : Leaves base deepest post (action store))
    (nextLeaves : ∀ result newer, newer.Labelled deepest → Grows base newer → post result newer →
      Leaves base deepest nextPost (next result newer)) :
    Leaves base deepest nextPost ((action >>= next) store) := by
  show Leaves base deepest nextPost (EStateM.bind action next store)
  unfold EStateM.bind
  cases outcome : action store with
  | ok result newer =>
      rw [outcome] at leaves
      exact nextLeaves result newer leaves.1 leaves.2.1 leaves.2.2
  | error error newer =>
      rw [outcome] at leaves
      exact leaves

/-- What a step leaves has grown from an older base too. -/
theorem Leaves.rebase {α : Type} {post : α → Store → Prop}
    {outcome : EStateM.Result RunError Store α} (leaves : Leaves older deepest post outcome)
    (grows : Grows base older) :
    Leaves base deepest (fun result newer => Grows older newer ∧ post result newer) outcome := by
  cases outcome with
  | ok result newer => exact ⟨leaves.1, grows.trans leaves.2.1, leaves.2⟩
  | error error newer => exact ⟨leaves.1, grows.trans leaves.2⟩

/-- Copying entries fills slots with fresh arrays, if copying a value makes
one. -/
theorem leaves_copyEntries {copy : Value → Copying Value}
    (copies : ∀ value {store : Store}, store.Labelled deepest →
      Leaves store deepest (fun copied newer => Fresh store newer level copied)
        (copy value store))
    (entries : List (Nat × Value)) {slots : Slots} (labelled : store.Labelled deepest)
    (grows : Grows base store) (pending : Pending base store level slots) :
    Leaves base deepest (fun filled newer => Pending base newer level filled)
      (copyEntries copy slots entries store) := by
  induction entries generalizing slots store with
  | nil => exact ⟨labelled, grows, pending⟩
  | cons entry rest inductionHypothesis =>
      obtain ⟨index, value⟩ := entry
      refine ((copies value labelled).rebase grows).bind ?_
      intro copied newer newerLabelled newerGrows fresh
      exact inductionHypothesis newerLabelled newerGrows
        (pending.insert grows fresh.1 fresh.2 index)

/-- A value copied into some room is fresh, at the level where that room
begins. -/
theorem leaves_copyInRoom {room : Nat} (inside : room ≤ maxArrayNesting + 1)
    (deep : maxArrayNesting ≤ deepest) (value : Value) (labelled : store.Labelled deepest) :
    Leaves store deepest
      (fun copied newer => Fresh store newer (maxArrayNesting + 1 - room) copied)
      (copyInRoom room value store) := by
  induction room generalizing value store with
  | zero =>
      cases value with
      | array location => exact ⟨labelled, .refl store⟩
      | integer number => exact ⟨labelled, .refl store, nofun⟩
      | function declaration => exact ⟨labelled, .refl store, nofun⟩
  | succ room inductionHypothesis =>
      cases value with
      | integer number => exact ⟨labelled, .refl store, nofun⟩
      | function declaration => exact ⟨labelled, .refl store, nofun⟩
      | array location =>
          have filled := leaves_copyEntries
            (fun value _ => inductionHypothesis (Nat.le_of_succ_le inside) value)
            (store.slots location).toList labelled (.refl store) pending_empty
          refine filled.bind fun slots newer newerLabelled grows pending => ?_
          have isNext : maxArrayNesting + 1 - room = maxArrayNesting - room + 1 := by omega
          rw [isNext] at pending
          have isLevel : maxArrayNesting + 1 - (room + 1) = maxArrayNesting - room := by omega
          rw [isLevel]
          exact newerLabelled.allocate pending grows (by omega)

/-- A value copied for a level is fresh at that level. -/
theorem leaves_copyAt (deep : maxArrayNesting ≤ deepest) (level : Nat) (value : Value)
    (labelled : store.Labelled deepest) :
    Leaves store deepest (fun copied newer => Fresh store newer level copied)
      (copyAt level value store) := by
  unfold copyAt
  by_cases inside : level ≤ maxArrayNesting + 1
  · have leaves := leaves_copyInRoom (Nat.sub_le _ level) deep value labelled
    rw [Nat.sub_sub_self inside] at leaves
    exact leaves
  · have noRoom : maxArrayNesting + 1 - level = 0 := by omega
    rw [noRoom]
    cases value with
    | array location => exact ⟨labelled, .refl store⟩
    | integer number => exact ⟨labelled, .refl store, nofun⟩
    | function declaration => exact ⟨labelled, .refl store, nofun⟩

end Store

/-! ## Loading -/

namespace StateValue

mutual

/-- Number of lists on the longest chain of lists in lists. -/
def nesting : StateValue → Nat
  | .integer _ => 0
  | .list items => nestingOfItems items + 1

/-- Largest nesting in a list, 0 for the empty list. -/
def nestingOfItems : List StateValue → Nat
  | [] => 0
  | item :: rest => max item.nesting (nestingOfItems rest)

end

end StateValue

/-- The largest of some numbers is not below any of them, nor below the least that it can
be. -/
theorem le_largest (sizes : List Nat) (least : Nat) :
    least ≤ sizes.foldl max least ∧ ∀ size ∈ sizes, size ≤ sizes.foldl max least := by
  rw [List.foldl_max]
  refine ⟨Nat.le_max_left _ _, fun size member => ?_⟩
  exact Nat.le_trans (List.le_max?_getD_of_mem member) (Nat.le_max_right _ _)

namespace State

/-- Largest nesting of the values of a state, 0 for the empty state. -/
def nesting (state : State) : Nat :=
  state.foldl (fun deepest _ value => max deepest value.nesting) 0

/-- What is measured of a value of a state is not above the largest measure. -/
theorem le_foldl_max (measure : StateValue → Nat) {state : State} {name : String}
    {value : StateValue} (member : (name, value) ∈ state.toList) :
    measure value ≤ state.foldl (fun largest _ value => max largest (measure value)) 0 := by
  have isLargest : state.foldl (fun largest _ value => max largest (measure value)) 0 =
      (state.toList.map fun entry => measure entry.2).foldl max 0 := by
    rw [Std.ExtTreeMap.foldl_eq_foldl_toList, List.foldl_map]
  rw [isLargest]
  exact (le_largest _ 0).2 _ (List.mem_map_of_mem member)

theorem nesting_le_of_mem {state : State} {name : String} {value : StateValue}
    (member : (name, value) ∈ state.toList) : value.nesting ≤ state.nesting :=
  le_foldl_max StateValue.nesting member

end State

namespace Store

mutual

/-- Loading a value keeps the forest, and what it gives is fresh. -/
theorem Labelled.load {store : Store} {deepest : Nat} (labelled : store.Labelled deepest)
    (level : Nat) (value : StateValue) (below : level + value.nesting ≤ deepest + 1) :
    (store.load level value).2.Labelled deepest ∧ Grows store (store.load level value).2 ∧
      Fresh store (store.load level value).2 level (store.load level value).1 := by
  match value with
  | .integer number => exact ⟨labelled, .refl store, nofun⟩
  | .list items =>
      rw [StateValue.nesting] at below
      obtain ⟨filledLabelled, grows, pending⟩ :=
        labelled.loadItems (level + 1) 0 items (by omega) (.refl store) pending_empty
      exact filledLabelled.allocate pending grows (by omega)

/-- Loading items keeps the forest and fills slots. -/
theorem Labelled.loadItems {store base : Store} {deepest : Nat} {slots : Slots}
    (labelled : store.Labelled deepest) (level index : Nat) (items : List StateValue)
    (below : level + StateValue.nestingOfItems items ≤ deepest + 1) (grows : Grows base store)
    (pending : Pending base store level slots) :
    (store.loadItems level index slots items).2.Labelled deepest ∧
      Grows base (store.loadItems level index slots items).2 ∧
      Pending base (store.loadItems level index slots items).2 level
        (store.loadItems level index slots items).1 := by
  match items with
  | [] => exact ⟨labelled, grows, pending⟩
  | item :: rest =>
      rw [StateValue.nestingOfItems] at below
      obtain ⟨newerLabelled, newerGrows, fresh⟩ := labelled.load level item (by omega)
      exact newerLabelled.loadItems level (index + 1) rest (by omega) (grows.trans newerGrows)
        (pending.insert grows newerGrows fresh index)

end

theorem labelled_empty (deepest : Nat) : Store.empty.Labelled deepest := by
  constructor
  · intro holder index held holds
    exact absurd holds.lt_size (Nat.not_lt_zero _)
  · intro first second index other held holds
    exact absurd holds.lt_size (Nat.not_lt_zero _)
  · intro location level isLevel
    exact absurd (lt_size_of_level? isLevel) (Nat.not_lt_zero _)

end Store

end Scriptlet
