import Mathlib.Logic.Relation
import Scriptlet.Proofs.Store.Slots

/-!
Contract: what reading an array back depends on.

Owns:
- the arrays that are reachable from an array;
- reading a value back depends only on the slots of the arrays that are reachable
  from it;
- in a forest, no height above the number of arrays changes what is read back.

Reading back descends at most as many levels as there are arrays.  A chain of
arrays in arrays has one array of every level, so it is no longer than that.
-/

namespace Scriptlet

namespace Store

variable {store first second : Store} {deepest : Nat}

/-! ## Reachable arrays -/

/-- Whether an array is another one or is reachable through its slots. -/
def Reachable (store : Store) : Nat → Nat → Prop :=
  Relation.ReflTransGen fun holder held => ∃ index, store.Holds holder index held

theorem Labelled.lt_size_of_holds (labelled : store.Labelled deepest) {holder index held : Nat}
    (holds : store.Holds holder index held) : held < store.cells.size := by
  obtain ⟨_, _, isLevel⟩ := labelled.level_of_holds holds
  exact lt_size_of_level? isLevel

theorem Labelled.lt_size_of_reachable (labelled : store.Labelled deepest) {outer inner : Nat}
    (inside : outer < store.cells.size) (reachable : store.Reachable outer inner) :
    inner < store.cells.size := by
  cases reachable with
  | refl => exact inside
  | tail _ held =>
      obtain ⟨index, holds⟩ := held
      exact labelled.lt_size_of_holds holds

/-- Two arrays from which an array is reachable are reachable one from the other,
because every array is held by one slot only. -/
theorem Labelled.reachable_or_reachable (labelled : store.Labelled deepest)
    {left right inner : Nat} (fromLeft : store.Reachable left inner)
    (fromRight : store.Reachable right inner) :
    store.Reachable left right ∨ store.Reachable right left := by
  induction fromLeft with
  | refl => exact .inr fromRight
  | @tail holder held fromLeft holds inductionHypothesis =>
      rcases fromRight.cases_tail with rfl | ⟨other, fromRight, otherHolds⟩
      · exact .inl (fromLeft.tail holds)
      · obtain ⟨index, holds⟩ := holds
        obtain ⟨otherIndex, otherHolds⟩ := otherHolds
        obtain ⟨rfl, _⟩ := labelled.holder_unique holds otherHolds
        exact inductionHypothesis fromRight

/-! ## Locality -/

theorem map_slots_congr {slots : Slots} {read other : Value → StateValue}
    (same : ∀ {index : Nat} {value : Value}, slots[index]? = some value →
      read value = other value) :
    (slots.map fun _ => read) = slots.map fun _ => other := by
  apply Std.ExtTreeMap.ext_getElem?
  intro index
  rw [Std.ExtTreeMap.getElem?_map, Std.ExtTreeMap.getElem?_map]
  cases found : slots[index]? with
  | none => rfl
  | some value => exact congrArg some (same found)

/-- Reading back is the same in two stores whose arrays have the same slots, as far
as they are reachable. -/
theorem stateValueUpTo_eq_of_agree (Inside : Nat → Prop)
    (same : ∀ {location : Nat}, Inside location → second.slots location = first.slots location)
    (closed : ∀ {holder index held : Nat}, Inside holder → first.Holds holder index held →
      Inside held)
    (height : Nat) {value : Value}
    (inside : ∀ location, value = .array location → Inside location) :
    second.stateValueUpTo height value = first.stateValueUpTo height value := by
  induction height generalizing value with
  | zero => cases value <;> rfl
  | succ height inductionHypothesis =>
      cases value with
      | integer | function => rfl
      | array location =>
          have insideArray := inside location rfl
          simp only [stateValueUpTo, same insideArray]
          refine congrArg (fun items => some (StateValue.list (denseList items)))
            (map_slots_congr fun {index held} found => ?_)
          rw [inductionHypothesis fun inner isArray => ?_]
          subst isArray
          exact closed insideArray found

/-! ## Height -/

/-- Number of arrays that are labelled with a level or a deeper one. -/
def countFrom (store : Store) (level : Nat) : Nat :=
  store.cells.toList.countP fun cell => level ≤ cell.level

theorem countFrom_le_size (store : Store) (level : Nat) :
    store.countFrom level ≤ store.cells.size := by
  have bound := List.countP_le_length (p := fun cell : Cell => decide (level ≤ cell.level))
    (l := store.cells.toList)
  rw [Array.length_toList] at bound
  exact bound

/-- An array counts at its own level only. -/
theorem countFrom_succ_lt {location level : Nat} (isLevel : store.level? location = some level) :
    store.countFrom (level + 1) < store.countFrom level := by
  obtain ⟨cell, found, rfl⟩ := level?_eq_some_iff.mp isLevel
  have member : cell ∈ store.cells.toList := by
    rw [Array.mem_toList_iff]
    exact Array.mem_of_getElem? found
  obtain ⟨before, after, isList⟩ := List.append_of_mem member
  have fewer : ∀ cells : List Cell,
      (cells.countP fun other => cell.level + 1 ≤ other.level) ≤
        cells.countP fun other => cell.level ≤ other.level := by
    intro cells
    apply List.countP_mono_left
    intro other _ deeper
    rw [decide_eq_true_eq] at deeper ⊢
    omega
  have fewerBefore := fewer before
  have fewerAfter := fewer after
  simp only [countFrom, isList, List.countP_append, List.countP_cons, decide_eq_true_eq]
  simp only [Nat.not_succ_le_self, if_false, Nat.le_refl, if_true]
  omega

/-- Whether every array that is held is labelled one level deeper than its
holder. -/
def Levelled (store : Store) : Prop :=
  ∀ holder index held, store.Holds holder index held →
    ∃ level, store.level? holder = some level ∧ store.level? held = some (level + 1)

theorem Labelled.levelled (labelled : store.Labelled deepest) : store.Levelled :=
  fun _ _ _ => labelled.level_of_holds

/-- Two heights that are enough for the level of an array read the same. -/
theorem Levelled.stateValueUpTo_eq (levelled : store.Levelled) {height other : Nat}
    {location level : Nat} (isLevel : store.level? location = some level)
    (enough : store.countFrom level ≤ height) (otherEnough : store.countFrom level ≤ other) :
    store.stateValueUpTo height (.array location) =
      store.stateValueUpTo other (.array location) := by
  induction height generalizing other location level with
  | zero =>
      have fewer := countFrom_succ_lt isLevel
      omega
  | succ height inductionHypothesis =>
      have fewer := countFrom_succ_lt isLevel
      cases other with
      | zero => omega
      | succ other =>
          simp only [stateValueUpTo]
          refine congrArg (fun items => some (StateValue.list (denseList items)))
            (map_slots_congr fun {index value} found => ?_)
          cases value with
          | integer | function => cases height <;> cases other <;> rfl
          | array held =>
              obtain ⟨holderLevel, isHolder, heldLevel⟩ := levelled _ _ _ found
              rw [isLevel] at isHolder
              cases isHolder
              have heldEnough : store.countFrom (level + 1) ≤ height := by omega
              have heldOtherEnough : store.countFrom (level + 1) ≤ other := by omega
              rw [inductionHypothesis heldLevel heldEnough heldOtherEnough]

/-- No height above the number of arrays changes what is read back. -/
theorem Labelled.stateValueUpTo_eq_stateValue (labelled : store.Labelled deepest) {value : Value}
    (has : store.Has value) {height : Nat} (enough : store.cells.size ≤ height) :
    store.stateValueUpTo height value = store.stateValue value := by
  unfold stateValue
  cases value with
  | integer | function => cases height <;> cases store.cells.size <;> rfl
  | array location =>
      obtain ⟨level, isLevel⟩ := exists_level?_of_lt (has location rfl)
      have bound := store.countFrom_le_size level
      exact labelled.levelled.stateValueUpTo_eq isLevel (Nat.le_trans bound enough) bound

end Store

end Scriptlet
