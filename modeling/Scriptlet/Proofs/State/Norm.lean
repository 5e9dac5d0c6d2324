import Mathlib.Data.List.DropRight
import Mathlib.Data.List.GetD
import Scriptlet.State

/-!
Contract: the normal form of state values.

Owns:
- the normal form, in which no list ends with the integer zero;
- lists that end with no zero are determined by what stands at each index, when
  everything past their end counts as zero;
- values have the same normal form exactly if they agree at each index, in this
  sense, down to their integers;
- values are in normal form exactly if no list in them, at any depth, ends with the
  integer zero.

Only integers that are zero are dropped.  A list that is empty, or comes to be
empty, stays where it stands.
-/

namespace Scriptlet

namespace StateValue

mutual

/-- The value without the integer zeros at the ends of its lists. -/
def norm : StateValue → StateValue
  | .integer value => .integer value
  | .list items => .list ((normItems items).rdropWhile isZero)

/-- The normal forms of some values. -/
def normItems : List StateValue → List StateValue
  | [] => []
  | item :: rest => item.norm :: normItems rest

end

@[simp] theorem normItems_eq_map (items : List StateValue) : normItems items = items.map norm := by
  induction items with
  | nil => rfl
  | cons item rest inductionHypothesis => rw [normItems, inductionHypothesis, List.map_cons]

theorem norm_list (items : List StateValue) :
    (list items).norm = .list ((items.map norm).rdropWhile isZero) := by
  rw [norm, normItems_eq_map]

/-- The normal form of an integer is that integer. -/
@[simp] theorem integer?_norm (value : StateValue) : value.norm.integer? = value.integer? := by
  cases value <;> rfl

/-- The normal form of a list has the normal forms of its items, up to the last that is not
zero. -/
theorem items?_norm (value : StateValue) :
    value.norm.items? = value.items?.map fun items => (items.map norm).rdropWhile isZero := by
  cases value with
  | integer => rfl
  | list items => rw [norm_list, items?, items?, Option.map_some]

theorem isZero_iff {value : StateValue} : value.isZero = true ↔ value = .integer 0 := by
  cases value <;> simp [isZero]

/-- Only the integer zero has the integer zero as its normal form. -/
theorem norm_eq_zero_iff {value : StateValue} : value.norm = .integer 0 ↔ value = .integer 0 := by
  cases value with
  | integer number => rfl
  | list items => simp [norm_list]

/-! ## Lists that end with no zero -/

/-- What stands at an index of a list, zero past its end. -/
def itemAt (items : List StateValue) (index : Nat) : StateValue :=
  items.getD index (.integer 0)

/-- Whether a list does not end with the integer zero. -/
def Trimmed (items : List StateValue) : Prop :=
  ∀ front, items ≠ front ++ [.integer 0]

@[simp] theorem itemAt_nil (index : Nat) : itemAt [] index = .integer 0 := rfl

@[simp] theorem itemAt_cons_zero (item : StateValue) (rest : List StateValue) :
    itemAt (item :: rest) 0 = item := rfl

@[simp] theorem itemAt_cons_succ (item : StateValue) (rest : List StateValue) (index : Nat) :
    itemAt (item :: rest) (index + 1) = itemAt rest index := rfl

theorem itemAt_of_length_le {items : List StateValue} {index : Nat}
    (outside : items.length ≤ index) : itemAt items index = .integer 0 := by
  simp [itemAt, outside]

/-- A zero at the end changes nothing at any index. -/
theorem itemAt_append_zero (items : List StateValue) (index : Nat) :
    itemAt (items ++ [.integer 0]) index = itemAt items index := by
  induction items generalizing index with
  | nil => cases index <;> rfl
  | cons item rest inductionHypothesis =>
      cases index with
      | zero => rfl
      | succ index => exact inductionHypothesis index

theorem itemAt_map_norm (items : List StateValue) (index : Nat) :
    itemAt (items.map norm) index = (itemAt items index).norm := by
  induction items generalizing index with
  | nil => rfl
  | cons item rest inductionHypothesis =>
      cases index with
      | zero => rfl
      | succ index => exact inductionHypothesis index

/-- Dropping zeros from the end changes nothing at any index, and leaves a list
that does not end with one. -/
theorem itemAt_rdropWhile_isZero (items : List StateValue) :
    Trimmed (items.rdropWhile isZero) ∧
      ∀ index, itemAt (items.rdropWhile isZero) index = itemAt items index := by
  induction items using List.reverseRecOn with
  | nil => exact ⟨fun front => by simp, fun _ => rfl⟩
  | append_singleton front last inductionHypothesis =>
      by_cases zero : last.isZero = true
      · obtain rfl := isZero_iff.mp zero
        rw [List.rdropWhile_concat_pos _ _ _ zero]
        refine ⟨inductionHypothesis.1, fun index => ?_⟩
        rw [itemAt_append_zero]
        exact inductionHypothesis.2 index
      · rw [List.rdropWhile_concat_neg _ _ _ zero]
        refine ⟨fun other same => zero ?_, fun _ => rfl⟩
        rw [(List.append_singleton_inj.mp same).2]
        rfl

/-- A list that does not end with zero is no longer than one that agrees with it
at each index. -/
theorem Trimmed.length_le {items other : List StateValue} (trimmed : Trimmed items)
    (same : ∀ index, itemAt items index = itemAt other index) : items.length ≤ other.length := by
  induction items using List.reverseRecOn with
  | nil => exact Nat.zero_le _
  | append_singleton front last _ =>
      refine Nat.le_of_not_lt fun longer => trimmed front ?_
      rw [List.length_append, List.length_singleton] at longer
      have atEnd := same front.length
      rw [itemAt_of_length_le (Nat.le_of_lt_succ longer)] at atEnd
      simp only [itemAt, List.getD_append_right _ _ _ _ (Nat.le_refl _), Nat.sub_self,
        List.getD_cons_zero] at atEnd
      rw [atEnd]

/-- Lists that do not end with zero are equal if they agree at each index. -/
theorem Trimmed.eq_of_itemAt_eq {items other : List StateValue} (trimmed : Trimmed items)
    (otherTrimmed : Trimmed other) (same : ∀ index, itemAt items index = itemAt other index) :
    items = other := by
  have sameLength : items.length = other.length :=
    Nat.le_antisymm (trimmed.length_le same) (otherTrimmed.length_le fun index => (same index).symm)
  apply List.ext_getElem sameLength
  intro index inside otherInside
  have atIndex := same index
  simp only [itemAt, List.getD_eq_getElem _ _ inside, List.getD_eq_getElem _ _ otherInside]
    at atIndex
  exact atIndex

/-! ## Values with the same normal form -/

/-- Lists have the same normal form exactly if the items at each index do. -/
theorem norm_list_eq_iff {items other : List StateValue} :
    (list items).norm = (list other).norm ↔
      ∀ index, (itemAt items index).norm = (itemAt other index).norm := by
  obtain ⟨trimmed, agrees⟩ := itemAt_rdropWhile_isZero (items.map norm)
  obtain ⟨otherTrimmed, otherAgrees⟩ := itemAt_rdropWhile_isZero (other.map norm)
  rw [norm_list, norm_list, list.injEq]
  constructor
  · intro same index
    rw [← itemAt_map_norm, ← itemAt_map_norm, ← agrees, ← otherAgrees, same]
  · intro same
    apply trimmed.eq_of_itemAt_eq otherTrimmed
    intro index
    rw [agrees, otherAgrees, itemAt_map_norm, itemAt_map_norm]
    exact same index

/-! ## Values in normal form -/

/-- Whether a value stands in another one, at some depth.  Each stands in itself. -/
inductive Inside : StateValue → StateValue → Prop where
  | self (value : StateValue) : Inside value value
  | item {inner item : StateValue} {items : List StateValue} :
      item ∈ items → Inside inner item → Inside inner (.list items)

/-- Whether no list in a value, at any depth, ends with the integer zero. -/
def Normal (value : StateValue) : Prop :=
  ∀ items, Inside (.list items) value → items.getLast? ≠ some (.integer 0)

theorem trimmed_iff {items : List StateValue} :
    Trimmed items ↔ items.getLast? ≠ some (.integer 0) := by
  rw [Trimmed, ne_eq, List.getLast?_eq_some_iff, not_exists]

theorem normal_integer (number : Int64) : (integer number).Normal := by
  intro items inside
  cases inside

theorem normal_list_iff {items : List StateValue} :
    (list items).Normal ↔ Trimmed items ∧ ∀ item ∈ items, item.Normal := by
  constructor
  · intro normal
    exact ⟨trimmed_iff.mpr (normal items (.self _)),
      fun item member inner inside => normal inner (.item member inside)⟩
  · rintro ⟨trimmed, normal⟩ inner inside
    cases inside with
    | self => exact trimmed_iff.mp trimmed
    | item member inside => exact normal _ member inner inside

theorem Trimmed.rdropWhile_isZero {items : List StateValue} (trimmed : Trimmed items) :
    items.rdropWhile isZero = items := by
  obtain ⟨keptTrimmed, same⟩ := itemAt_rdropWhile_isZero items
  exact keptTrimmed.eq_of_itemAt_eq trimmed same

/-- A value in which no list ends with zero is its own normal form. -/
theorem Normal.norm_eq {value : StateValue} (normal : value.Normal) : value.norm = value := by
  match value with
  | .integer number => rfl
  | .list items =>
      obtain ⟨trimmed, normalItems⟩ := normal_list_iff.mp normal
      have sameItems : items.map norm = items := by
        refine (List.map_congr_left fun item member => ?_).trans (List.map_id items)
        have smaller := List.sizeOf_lt_of_mem member
        exact (normalItems item member).norm_eq
      rw [norm_list, sameItems, trimmed.rdropWhile_isZero]
termination_by sizeOf value

theorem normal_norm (value : StateValue) : value.norm.Normal := by
  match value with
  | .integer number => exact normal_integer number
  | .list items =>
      rw [norm_list, normal_list_iff]
      refine ⟨(itemAt_rdropWhile_isZero _).1, fun item member => ?_⟩
      obtain ⟨original, member, rfl⟩ :=
        List.mem_map.mp ((List.rdropWhile_prefix isZero _).subset member)
      have smaller := List.sizeOf_lt_of_mem member
      exact normal_norm original
termination_by sizeOf value

/-- Only a run of integer zeros at the end of a list is dropped. -/
theorem exists_front_of_norm (items : List StateValue) :
    ∃ front count, items = front ++ List.replicate count (.integer 0) ∧
      front.getLast? ≠ some (.integer 0) ∧ (list items).norm = .list (front.map norm) := by
  induction items using List.reverseRecOn with
  | nil => exact ⟨[], 0, rfl, by simp, rfl⟩
  | append_singleton front last inductionHypothesis =>
      by_cases zero : last = .integer 0
      · obtain ⟨kept, count, isFront, noZero, isNorm⟩ := inductionHypothesis
        refine ⟨kept, count + 1, ?_, noZero, ?_⟩
        · rw [zero, isFront, List.append_assoc, List.replicate_succ']
        · rw [norm_list, List.map_append, List.map_singleton,
            List.rdropWhile_concat_pos _ _ _ (isZero_iff.mpr (norm_eq_zero_iff.mpr zero)),
            ← norm_list]
          exact isNorm
      · refine ⟨front ++ [last], 0, (List.append_nil _).symm, by simpa using zero, ?_⟩
        rw [norm_list, List.map_append, List.map_singleton,
          List.rdropWhile_concat_neg _ _ _ fun isZero =>
            zero (norm_eq_zero_iff.mp (isZero_iff.mp isZero))]

end StateValue

end Scriptlet
