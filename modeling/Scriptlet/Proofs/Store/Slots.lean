import Scriptlet.Proofs.Store.Forest

/-!
Contract: what the slots of arrays come to hold.

Owns:
- the slots of arrays after an array is made and after a slot is written;
- a rule for copying: what is known of stores, of the values that are copied and
  of the copies, when making one array keeps it;
- stores whose arrays hold data only, which copying, writing and loading keep.
-/

namespace Scriptlet

/-- A sequence succeeds if its first step does and the rest does after it. -/
theorem bind_eq_ok_iff {ε σ α β : Type} {action : EStateM ε σ α} {next : α → EStateM ε σ β}
    {before after : σ} {result : β} :
    (action >>= next) before = .ok result after ↔
      ∃ value middle, action before = .ok value middle ∧ next value middle = .ok result after := by
  show EStateM.bind action next before = .ok result after ↔ _
  unfold EStateM.bind
  cases outcome : action before with
  | ok value middle =>
      constructor
      · exact fun success => ⟨value, middle, rfl, success⟩
      · rintro ⟨_, _, first, success⟩
        cases first
        exact success
  | error error middle =>
      constructor
      · intro success
        cases success
      · rintro ⟨_, _, first, _⟩
        cases first

/-- A sequence fails if its first step does, or the rest does after it. -/
theorem bind_eq_error_iff {ε σ α β : Type} {action : EStateM ε σ α} {next : α → EStateM ε σ β}
    {before after : σ} {error : ε} :
    (action >>= next) before = .error error after ↔
      action before = .error error after ∨
        ∃ value middle, action before = .ok value middle ∧
          next value middle = .error error after := by
  show EStateM.bind action next before = .error error after ↔ _
  unfold EStateM.bind
  cases outcome : action before with
  | ok value middle =>
      constructor
      · exact fun failed => .inr ⟨value, middle, rfl, failed⟩
      · rintro (failed | ⟨_, _, first, failed⟩)
        · cases failed
        · cases first
          exact failed
  | error other middle =>
      constructor
      · intro failed
        cases failed
        exact .inl rfl
      · rintro (failed | ⟨_, _, first, _⟩)
        · cases failed
          rfl
        · cases first

namespace Store

variable {store newer : Store}

/-! ## Slots of changed stores -/

theorem slots_of_size_le {location : Nat} (outside : store.cells.size ≤ location) :
    store.slots location = ∅ := by
  rw [slots, Array.getElem?_eq_none outside]

theorem slots_push (store : Store) (cell : Cell) (location : Nat) :
    (⟨store.cells.push cell⟩ : Store).slots location =
      if location = store.cells.size then cell.slots else store.slots location := by
  by_cases isNew : location = store.cells.size
  · simp [slots, isNew]
  · simp [slots, Array.getElem?_push, isNew]

theorem slots_write_self {location : Nat} (inside : location < store.cells.size) (index : Nat)
    (value : Value) :
    (store.write location index value).slots location =
      (store.slots location).insert index value := by
  simp only [slots, write, Array.getElem?_modify, Array.getElem?_eq_getElem inside,
    Option.map_some, if_pos]

theorem slots_write_of_ne {location other : Nat} (different : other ≠ location) (index : Nat)
    (value : Value) : (store.write location index value).slots other = store.slots other := by
  simp only [slots, write, Array.getElem?_modify, if_neg different.symm]

@[simp] theorem size_write (store : Store) (location index : Nat) (value : Value) :
    (store.write location index value).cells.size = store.cells.size := by
  simp [write]

/-! ## Copying that succeeds -/

theorem copyEntries_cons_eq_ok_iff {copy : Value → Copying Value} {copied filled : Slots}
    {entry : Nat × Value} {rest : List (Nat × Value)} :
    copyEntries copy copied (entry :: rest) store = .ok filled newer ↔
      ∃ stored middle, copy entry.2 store = .ok stored middle ∧
        copyEntries copy (copied.insert entry.1 stored) rest middle = .ok filled newer :=
  bind_eq_ok_iff

/-- Copied entries stand where the entries do. -/
theorem mem_of_copyEntries {copy : Value → Copying Value} {entries : List (Nat × Value)}
    {copied filled : Slots} (success : copyEntries copy copied entries store = .ok filled newer)
    {index : Nat} : index ∈ filled ↔ index ∈ copied ∨ index ∈ entries.map Prod.fst := by
  induction entries generalizing copied store with
  | nil =>
      cases success
      simp
  | cons entry rest inductionHypothesis =>
      obtain ⟨stored, middle, _, success⟩ := copyEntries_cons_eq_ok_iff.mp success
      rw [inductionHypothesis success, Std.ExtTreeMap.mem_insert, Nat.compare_eq_eq,
        List.map_cons, List.mem_cons, eq_comm, or_assoc, or_left_comm]

/-- An array is copied by copying its entries and making an array of the copies. -/
theorem copyInRoom_array_eq_ok {room location : Nat} {copy : Value}
    (copied : copyInRoom room (.array location) store = .ok copy newer) :
    ∃ less slots middle, room = less + 1 ∧
      copyEntries (copyInRoom less) ∅ (store.slots location).toList store = .ok slots middle ∧
      copy = .array middle.cells.size ∧
      newer = ⟨middle.cells.push ⟨maxArrayNesting - less, slots⟩⟩ := by
  cases room with
  | zero => cases copied
  | succ less =>
      obtain ⟨_, _, found, copied⟩ := bind_eq_ok_iff.mp copied
      cases found
      obtain ⟨slots, middle, filled, made⟩ := bind_eq_ok_iff.mp copied
      cases made
      exact ⟨less, slots, middle, rfl, filled, rfl, rfl⟩

theorem copyInRoom_of_not_array {room : Nat} {value : Value}
    (notArray : ∀ location, value ≠ .array location) :
    copyInRoom room value store = .ok value store := by
  cases value with
  | array location => exact absurd rfl (notArray location)
  | integer | function => cases room <;> rfl

/-- What is known while values are copied: of the store, of what may be copied and
of the copies. -/
structure CopyRule where
  Inv : Store → Prop
  Source : Value → Prop
  Copy : Value → Prop
  /-- What arrays hold may be copied. -/
  source : ∀ {store : Store} {location index : Nat} {value : Value}, Inv store →
    (store.slots location)[index]? = some value → Source value
  /-- A value that is no array is its own copy. -/
  copy : ∀ {value : Value}, (∀ location, value ≠ .array location) → Source value → Copy value
  /-- An array is made of copies. -/
  allocate : ∀ {store : Store} (level : Nat) {slots : Slots}, Inv store →
    (∀ {index : Nat} {value : Value}, slots[index]? = some value → Copy value) →
    Inv (store.allocate ⟨level, slots⟩).2 ∧ Copy (store.allocate ⟨level, slots⟩).1

theorem CopyRule.copyEntries (rule : CopyRule) {copy : Value → Copying Value}
    (copies : ∀ {value store copied newer}, rule.Inv store → rule.Source value →
      copy value store = .ok copied newer → rule.Inv newer ∧ rule.Copy copied)
    {entries : List (Nat × Value)} {slots filled : Slots} (inv : rule.Inv store)
    (sources : ∀ entry ∈ entries, rule.Source entry.2)
    (known : ∀ {index : Nat} {value : Value}, slots[index]? = some value → rule.Copy value)
    (success : Store.copyEntries copy slots entries store = .ok filled newer) :
    rule.Inv newer ∧
      ∀ {index : Nat} {value : Value}, filled[index]? = some value → rule.Copy value := by
  induction entries generalizing slots store with
  | nil =>
      cases success
      exact ⟨inv, known⟩
  | cons entry rest inductionHypothesis =>
      obtain ⟨stored, middle, copied, success⟩ := copyEntries_cons_eq_ok_iff.mp success
      rw [List.forall_mem_cons] at sources
      obtain ⟨inv, isCopy⟩ := copies inv sources.1 copied
      refine inductionHypothesis inv sources.2 (fun {index value} found => ?_) success
      rw [getElem?_insert_slots] at found
      split at found
      · cases found
        exact isCopy
      · exact known found

/-- What making one array keeps is kept by copying. -/
theorem CopyRule.copyInRoom (rule : CopyRule) {room : Nat} {value copy : Value}
    (inv : rule.Inv store) (source : rule.Source value)
    (success : Store.copyInRoom room value store = .ok copy newer) :
    rule.Inv newer ∧ rule.Copy copy := by
  induction room using Nat.strongRecOn generalizing value copy store newer with
  | ind room inductionHypothesis =>
      by_cases isArray : ∃ location, value = .array location
      · obtain ⟨location, rfl⟩ := isArray
        obtain ⟨less, slots, middle, rfl, filled, rfl, rfl⟩ := copyInRoom_array_eq_ok success
        have sources : ∀ entry ∈ (store.slots location).toList, rule.Source entry.2 :=
          fun entry member =>
            rule.source inv (Std.ExtTreeMap.mem_toList_iff_getElem?_eq_some.mp member)
        obtain ⟨inv, known⟩ := rule.copyEntries
          (inductionHypothesis less (Nat.lt_succ_self less)) inv sources (by simp) filled
        exact rule.allocate _ inv known
      · rw [copyInRoom_of_not_array (fun location isArray' => isArray ⟨location, isArray'⟩)]
          at success
        cases success
        exact ⟨inv, rule.copy (fun location isArray' => isArray ⟨location, isArray'⟩) source⟩

/-- Copies of entries that fail have kept it too. -/
theorem CopyRule.copyEntries_error (rule : CopyRule) {room : Nat}
    (fails : ∀ {value store error newer}, rule.Inv store → rule.Source value →
      Store.copyInRoom room value store = .error error newer → rule.Inv newer)
    {entries : List (Nat × Value)} {slots : Slots} {error : RunError} (inv : rule.Inv store)
    (sources : ∀ entry ∈ entries, rule.Source entry.2)
    (failed : Store.copyEntries (Store.copyInRoom room) slots entries store =
      .error error newer) : rule.Inv newer := by
  induction entries generalizing slots store with
  | nil => cases failed
  | cons entry rest inductionHypothesis =>
      rw [List.forall_mem_cons] at sources
      rcases bind_eq_error_iff.mp failed with failed | ⟨stored, middle, copied, failed⟩
      · exact fails inv sources.1 failed
      · exact inductionHypothesis (rule.copyInRoom inv sources.1 copied).1 sources.2 failed

/-- A copy that fails keeps what making one array keeps. -/
theorem CopyRule.copyInRoom_error (rule : CopyRule) {room : Nat} {value : Value}
    {error : RunError} (inv : rule.Inv store) (source : rule.Source value)
    (failed : Store.copyInRoom room value store = .error error newer) : rule.Inv newer := by
  induction room generalizing value store error newer with
  | zero =>
      cases value with
      | array location =>
          cases failed
          exact inv
      | integer | function => cases failed
  | succ room inductionHypothesis =>
      cases value with
      | integer | function => cases failed
      | array location =>
          rcases bind_eq_error_iff.mp failed with failed | ⟨_, _, found, failed⟩
          · cases failed
          · cases found
            rcases bind_eq_error_iff.mp failed with failed | ⟨_, _, _, made⟩
            · apply rule.copyEntries_error inductionHypothesis inv _ failed
              intro entry member
              exact rule.source inv (Std.ExtTreeMap.mem_toList_iff_getElem?_eq_some.mp member)
            · cases made

end Store

/-! ## Data -/

/-- Whether a value is data, and not a function. -/
def Value.IsData : Value → Prop
  | .function _ => False
  | _ => True

/-- Whether all slots hold data. -/
def Slots.HoldData (slots : Slots) : Prop :=
  ∀ {index : Nat} {value : Value}, slots[index]? = some value → value.IsData

theorem Slots.holdData_empty : HoldData ∅ := by
  intro index value found
  simp at found

theorem Slots.HoldData.insert {slots : Slots} (holdData : slots.HoldData) (index : Nat)
    {value : Value} (isData : value.IsData) : HoldData (slots.insert index value) := by
  intro other found isFound
  rw [Store.getElem?_insert_slots] at isFound
  split at isFound
  · cases isFound
    exact isData
  · exact holdData isFound

namespace Store

/-- Whether the arrays of a store hold data only. -/
def HoldsData (store : Store) : Prop :=
  ∀ location, (store.slots location).HoldData

variable {store newer : Store}

theorem holdsData_empty : Store.empty.HoldsData :=
  fun _ => Slots.holdData_empty

theorem HoldsData.allocate (holdsData : store.HoldsData) (level : Nat) {slots : Slots}
    (slotsData : slots.HoldData) : (store.allocate ⟨level, slots⟩).2.HoldsData := by
  intro location
  show (Store.slots ⟨store.cells.push ⟨level, slots⟩⟩ location).HoldData
  rw [slots_push]
  split
  · exact slotsData
  · exact holdsData location

theorem HoldsData.write (holdsData : store.HoldsData) (location index : Nat) {value : Value}
    (isData : value.IsData) : (store.write location index value).HoldsData := by
  intro other
  by_cases isTarget : other = location
  · subst isTarget
    by_cases inside : other < store.cells.size
    · rw [slots_write_self inside]
      exact Slots.HoldData.insert (holdsData other) index isData
    · rw [slots_of_size_le (by rw [size_write]; exact Nat.le_of_not_lt inside)]
      exact Slots.holdData_empty
  · rw [slots_write_of_ne isTarget]
    exact holdsData other

theorem HoldsData.read (holdsData : store.HoldsData) (location index : Nat) :
    (store.read location index).IsData := by
  unfold Store.read
  rw [Std.ExtTreeMap.getD_eq_getD_getElem?]
  cases found : (store.slots location)[index]? with
  | none => trivial
  | some value => exact holdsData location found

/-- Copies of data are data. -/
def copyingData : CopyRule where
  Inv := HoldsData
  Source := Value.IsData
  Copy := Value.IsData
  source holdsData found := holdsData _ found
  copy _ isData := isData
  allocate level _ holdsData slotsData := ⟨holdsData.allocate level slotsData, trivial⟩

mutual

/-- Loading makes data only. -/
theorem HoldsData.load {store : Store} (holdsData : store.HoldsData) (level : Nat)
    (value : StateValue) :
    (store.load level value).2.HoldsData ∧ (store.load level value).1.IsData := by
  match value with
  | .integer number => exact ⟨holdsData, trivial⟩
  | .list items =>
      obtain ⟨holdsData, slotsData⟩ :=
        holdsData.loadItems (level + 1) 0 Slots.holdData_empty items
      exact ⟨holdsData.allocate level slotsData, trivial⟩

theorem HoldsData.loadItems {store : Store} (holdsData : store.HoldsData) (level index : Nat)
    {slots : Slots} (slotsData : slots.HoldData) (items : List StateValue) :
    (store.loadItems level index slots items).2.HoldsData ∧
      (store.loadItems level index slots items).1.HoldData := by
  match items with
  | [] => exact ⟨holdsData, slotsData⟩
  | item :: rest =>
      obtain ⟨holdsData, isData⟩ := holdsData.load level item
      exact holdsData.loadItems level (index + 1) (slotsData.insert index isData) rest

end

end Store

end Scriptlet
