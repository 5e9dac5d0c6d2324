import Scriptlet.Proofs.Store.Readback

/-!
Contract: stores whose arrays match.

Owns:
- steps that are taken side by side, and what holds of how they end;
- matchings between the locations of two stores, and the values that match;
- stores that are alike: matching arrays stand at the same level and hold matching
  values, where a slot that was not set counts as one that holds zero;
- making arrays, writing slots, copying, reading back and comparing are alike in
  stores that are alike.

Copying goes through the slots that were set.  Those of matching arrays can differ,
but only in slots that hold zero, and a copy of zero makes no array.
-/

namespace Scriptlet

/-! ## Steps side by side -/

/-- How two steps that are taken side by side end: both succeed, and `ok` holds of
what they give, or both halt alike, and `halted` holds of where they do. -/
inductive Coupled {ε σ α β : Type} (ok : α → σ → β → σ → Prop) (halted : σ → σ → Prop) :
    EStateM.Result ε σ α → EStateM.Result ε σ β → Prop where
  | ok {result : α} {other : β} {after otherAfter : σ} :
      ok result after other otherAfter → Coupled ok halted (.ok result after) (.ok other otherAfter)
  | error {error : ε} {after otherAfter : σ} :
      halted after otherAfter → Coupled ok halted (.error error after) (.error error otherAfter)

namespace Coupled

variable {ε σ α β γ δ : Type} {halted : σ → σ → Prop}

theorem bind {action : EStateM ε σ α} {other : EStateM ε σ β} {next : α → EStateM ε σ γ}
    {otherNext : β → EStateM ε σ δ} {ok : α → σ → β → σ → Prop} {nextOk : γ → σ → δ → σ → Prop}
    {before otherBefore : σ} (coupled : Coupled ok halted (action before) (other otherBefore))
    (rest : ∀ {result after otherResult otherAfter}, ok result after otherResult otherAfter →
      Coupled nextOk halted (next result after) (otherNext otherResult otherAfter)) :
    Coupled nextOk halted ((action >>= next) before) ((other >>= otherNext) otherBefore) := by
  show Coupled nextOk halted (EStateM.bind action next before)
    (EStateM.bind other otherNext otherBefore)
  unfold EStateM.bind
  cases outcome : action before with
  | ok result after =>
      cases otherOutcome : other otherBefore with
      | ok otherResult otherAfter =>
          rw [outcome, otherOutcome] at coupled
          cases coupled with
          | ok holds => exact rest holds
      | error error otherAfter =>
          rw [outcome, otherOutcome] at coupled
          nomatch coupled
  | error error after =>
      cases otherOutcome : other otherBefore with
      | ok otherResult otherAfter =>
          rw [outcome, otherOutcome] at coupled
          nomatch coupled
      | error otherError otherAfter =>
          rw [outcome, otherOutcome] at coupled
          cases coupled with
          | error holds => exact .error holds

/-- What is known of the first of two steps alone holds besides. -/
theorem and_left {ok : α → σ → β → σ → Prop} {known : α → σ → Prop}
    {result : EStateM.Result ε σ α} {other : EStateM.Result ε σ β}
    (coupled : Coupled ok halted result other)
    (holds : ∀ {value after}, result = .ok value after → known value after) :
    Coupled (fun value after otherValue otherAfter => known value after ∧
      ok value after otherValue otherAfter) halted result other := by
  cases coupled with
  | ok both => exact .ok ⟨holds rfl, both⟩
  | error both => exact .error both

end Coupled

/-! ## Matchings -/

/-- Which locations of two stores stand for one another, which functions may be
bound, and what the arrays of the second store that match none hold. -/
structure Matching where
  Locations : Nat → Nat → Prop
  Functions : FunctionDeclaration → Prop
  hidden : Store
  left_unique : ∀ {left right other : Nat}, Locations left right → Locations other right →
    left = other
  right_unique : ∀ {left right other : Nat}, Locations left right → Locations left other →
    right = other

/-- Values that match: arrays do when their locations do. -/
inductive Matching.Values (matching : Matching) : Value → Value → Prop where
  | integer (value : Int64) : Values matching (.integer value) (.integer value)
  | array {left right : Nat} (matched : matching.Locations left right) :
      Values matching (.array left) (.array right)
  | function {declaration : FunctionDeclaration} (allowed : matching.Functions declaration) :
      Values matching (.function declaration) (.function declaration)

/-- Slots that hold matching values, or zero where they were not set. -/
def Matching.SlotsAlike (matching : Matching) (slots other : Slots) : Prop :=
  ∀ index, matching.Values (slots.getD index (.integer 0)) (other.getD index (.integer 0))

variable {matching : Matching}

theorem Matching.Values.eq_zero_of_left {other : Value}
    (matched : matching.Values (.integer 0) other) : other = .integer 0 := by
  cases matched
  rfl

theorem Matching.Values.eq_zero_of_right {value : Value}
    (matched : matching.Values value (.integer 0)) : value = .integer 0 := by
  cases matched
  rfl

theorem Matching.slotsAlike_empty : matching.SlotsAlike ∅ ∅ := by
  intro index
  simpa using Matching.Values.integer 0

theorem Matching.SlotsAlike.insert {slots other : Slots} (alike : matching.SlotsAlike slots other)
    (index : Nat) {value otherValue : Value} (matched : matching.Values value otherValue) :
    matching.SlotsAlike (slots.insert index value) (other.insert index otherValue) := by
  intro found
  rw [Store.getD_insert_slots, Store.getD_insert_slots]
  split
  · exact matched
  · exact alike found

/-- Setting a slot to zero changes nothing that is read from it if it was not set. -/
theorem Matching.SlotsAlike.insert_zero_left {slots other : Slots}
    (alike : matching.SlotsAlike slots other) {index : Nat}
    (unset : other.getD index (.integer 0) = .integer 0) :
    matching.SlotsAlike (slots.insert index (.integer 0)) other := by
  intro found
  rw [Store.getD_insert_slots]
  split
  · next isIndex =>
      rw [← isIndex, unset]
      exact .integer 0
  · exact alike found

theorem Matching.SlotsAlike.insert_zero_right {slots other : Slots}
    (alike : matching.SlotsAlike slots other) {index : Nat}
    (unset : slots.getD index (.integer 0) = .integer 0) :
    matching.SlotsAlike slots (other.insert index (.integer 0)) := by
  intro found
  rw [Store.getD_insert_slots]
  split
  · next isIndex =>
      rw [← isIndex, unset]
      exact .integer 0
  · exact alike found

namespace Store

/-- Stores that are alike: arrays that match stand at the same level and hold
matching values, and the arrays made next match. -/
structure Alike (matching : Matching) (first second : Store) : Prop where
  level_eq : ∀ {left right : Nat}, matching.Locations left right →
    first.level? left = second.level? right
  read : ∀ {left right : Nat}, matching.Locations left right → ∀ index,
    matching.Values (first.read left index) (second.read right index)
  next : ∀ count, matching.Locations (first.cells.size + count) (second.cells.size + count)
  size_le : first.cells.size ≤ second.cells.size
  hidden : ∀ {right : Nat}, (∀ left, ¬ matching.Locations left right) →
    second.slots right = matching.hidden.slots right

variable {first second : Store}

/-! ## Making and writing -/

theorem read_push (store : Store) (cell : Cell) (location index : Nat) :
    (⟨store.cells.push cell⟩ : Store).read location index =
      if location = store.cells.size then cell.slots.getD index (.integer 0)
      else store.read location index := by
  rw [Store.read, slots_push]
  split <;> rfl

theorem read_of_size_le {store : Store} {location : Nat} (outside : store.cells.size ≤ location)
    (index : Nat) : store.read location index = .integer 0 := by
  rw [Store.read, slots_of_size_le outside, Std.ExtTreeMap.getD_empty]

theorem write_of_size_le {store : Store} {location : Nat} (outside : store.cells.size ≤ location)
    (index : Nat) (value : Value) : store.write location index value = store := by
  obtain ⟨cells⟩ := store
  simp only [write, mk.injEq]
  apply Array.ext_getElem?
  intro other
  rw [Array.getElem?_modify]
  split
  · next isTarget =>
      subst isTarget
      rw [Array.getElem?_eq_none outside, Option.map_none]
  · rfl

theorem slotLevel_eq (store : Store) (location : Nat) :
    store.slotLevel location = (store.level? location).elim 1 (· + 1) := by
  unfold slotLevel level?
  cases store.cells[location]? <;> rfl

theorem level?_eq_none_iff {store : Store} {location : Nat} :
    store.level? location = none ↔ store.cells.size ≤ location := by
  simp [level?]

namespace Alike

/-- The array made next on one side matches the one made next on the other only. -/
theorem eq_size_iff (alike : Alike matching first second) {left right : Nat}
    (matched : matching.Locations left right) :
    left = first.cells.size ↔ right = second.cells.size := by
  have next := alike.next 0
  constructor
  · rintro rfl
    exact matching.right_unique matched next
  · rintro rfl
    exact matching.left_unique matched next

theorem size_le_iff (alike : Alike matching first second) {left right : Nat}
    (matched : matching.Locations left right) :
    first.cells.size ≤ left ↔ second.cells.size ≤ right := by
  rw [← level?_eq_none_iff, ← level?_eq_none_iff, alike.level_eq matched]

theorem slotLevel_eq (alike : Alike matching first second) {left right : Nat}
    (matched : matching.Locations left right) : first.slotLevel left = second.slotLevel right := by
  rw [Store.slotLevel_eq, Store.slotLevel_eq, alike.level_eq matched]

theorem allocate (alike : Alike matching first second) (level : Nat) {slots other : Slots}
    (slotsAlike : matching.SlotsAlike slots other) :
    Alike matching (first.allocate ⟨level, slots⟩).2 (second.allocate ⟨level, other⟩).2 ∧
      matching.Values (first.allocate ⟨level, slots⟩).1 (second.allocate ⟨level, other⟩).1 := by
  refine ⟨⟨fun matched => ?_, fun matched index => ?_, fun count => ?_, ?_, fun unmatched => ?_⟩,
    .array (alike.next 0)⟩
  · simp only [Store.allocate, level?_push, alike.eq_size_iff matched, alike.level_eq matched]
  · simp only [Store.allocate, read_push, alike.eq_size_iff matched]
    split
    · exact slotsAlike index
    · exact alike.read matched index
  · simp only [Store.allocate, Array.size_push, Nat.add_assoc]
    exact alike.next (1 + count)
  · have smaller := alike.size_le
    simp only [Store.allocate, Array.size_push]
    omega
  · next right =>
      have notNext : right ≠ second.cells.size := by
        rintro rfl
        exact unmatched _ (alike.next 0)
      simp only [Store.allocate, slots_push, if_neg notNext]
      exact alike.hidden unmatched

theorem write (alike : Alike matching first second) {left right : Nat}
    (matched : matching.Locations left right) (index : Nat) {value other : Value}
    (valuesMatch : matching.Values value other) :
    Alike matching (first.write left index value) (second.write right index other) := by
  by_cases outside : first.cells.size ≤ left
  · rw [write_of_size_le outside, write_of_size_le ((alike.size_le_iff matched).mp outside)]
    exact alike
  · have inside := Nat.lt_of_not_le outside
    have otherInside : right < second.cells.size :=
      Nat.lt_of_not_le fun beyond => outside ((alike.size_le_iff matched).mpr beyond)
    refine ⟨fun isMatch => ?_, fun isMatch slot => ?_, fun count => ?_, ?_, fun unmatched => ?_⟩
    · rw [level?_write, level?_write, alike.level_eq isMatch]
    · next holder otherHolder =>
        by_cases isTarget : holder = left
        · subst isTarget
          cases matching.right_unique isMatch matched
          by_cases isIndex : slot = index
          · subst isIndex
            rw [read_write_self inside, read_write_self otherInside]
            exact valuesMatch
          · rw [read_write_of_ne inside isIndex, read_write_of_ne otherInside isIndex]
            exact alike.read matched slot
        · have otherNotTarget : otherHolder ≠ right := by
            rintro rfl
            exact isTarget (matching.left_unique isMatch matched)
          simp only [Store.read, slots_write_of_ne isTarget, slots_write_of_ne otherNotTarget]
          exact alike.read isMatch slot
    · rw [size_write, size_write]
      exact alike.next count
    · rw [size_write, size_write]
      exact alike.size_le
    · next other =>
        have notTarget : other ≠ right := by
          rintro rfl
          exact unmatched left matched
        rw [slots_write_of_ne notTarget]
        exact alike.hidden unmatched

/-! ## Reading back -/

/-- Matching values read back as the same from every height. -/
theorem stateValueUpTo_eq (alike : Alike matching first second) {value other : Value}
    (matched : matching.Values value other) (height : Nat) :
    first.stateValueUpTo height value = second.stateValueUpTo height other := by
  induction height generalizing value other with
  | zero => cases matched <;> rfl
  | succ height inductionHypothesis =>
      cases matched with
      | integer | function => rfl
      | array matched =>
          apply stateValueUpTo_array_congr
          intro index
          rw [readsAs, readsAs, inductionHypothesis (alike.read matched index)]

end Alike

theorem stateValueUpTo_of_size_le {store : Store} {location : Nat}
    (outside : store.cells.size ≤ location) (height : Nat) :
    store.stateValueUpTo height (.array location) = some (.list []) := by
  cases height with
  | zero => rfl
  | succ height =>
      rw [stateValueUpTo, slots_of_size_le outside]
      rfl

/-- No height above the number of arrays changes what a value reads back as, even
if it refers to no array. -/
theorem Labelled.stateValueUpTo_of_size_le {store : Store} {deepest : Nat}
    (labelled : store.Labelled deepest) (value : Value) {height : Nat}
    (enough : store.cells.size ≤ height) :
    store.stateValueUpTo height value = store.stateValue value := by
  by_cases has : store.Has value
  · exact labelled.stateValueUpTo_eq_stateValue has enough
  · simp only [Has, not_forall] at has
    obtain ⟨location, rfl, outside⟩ := has
    rw [stateValue, Store.stateValueUpTo_of_size_le (Nat.le_of_not_lt outside),
      Store.stateValueUpTo_of_size_le (Nat.le_of_not_lt outside)]

namespace Alike

variable {deepest : Nat}

/-- Matching values read back as the same. -/
theorem stateValue_eq (alike : Alike matching first second) (labelled : first.Labelled deepest)
    {value other : Value} (matched : matching.Values value other) :
    first.stateValue value = second.stateValue other := by
  rw [← labelled.stateValueUpTo_of_size_le value alike.size_le,
    alike.stateValueUpTo_eq matched, stateValue]

/-- Matching values compare the same. -/
theorem equal_eq (alike : Alike matching first second) (labelled : first.Labelled deepest)
    {left right otherLeft otherRight : Value} (leftMatched : matching.Values left otherLeft)
    (rightMatched : matching.Values right otherRight) :
    first.equal left right = second.equal otherLeft otherRight := by
  have leftSame := alike.stateValue_eq labelled leftMatched
  have rightSame := alike.stateValue_eq labelled rightMatched
  rw [← equalAcross_self, ← equalAcross_self]
  cases leftMatched with
  | integer => cases rightMatched <;> rfl
  | function => cases rightMatched <;> rfl
  | array =>
      cases rightMatched with
      | integer | function => rfl
      | array => simp only [equalAcross, leftSame, rightSame]

end Alike

/-! ## Entries -/

/-- What entries hold at an index, zero if none is there. -/
def valueAt : List (Nat × Value) → Nat → Value
  | [], _ => .integer 0
  | (index, value) :: rest, wanted => if index = wanted then value else valueAt rest wanted

theorem valueAt_of_not_mem {entries : List (Nat × Value)} {index : Nat}
    (absent : ∀ entry ∈ entries, entry.1 ≠ index) : valueAt entries index = .integer 0 := by
  induction entries with
  | nil => rfl
  | cons entry rest inductionHypothesis =>
      rw [List.forall_mem_cons] at absent
      rw [valueAt, if_neg absent.1]
      exact inductionHypothesis absent.2

theorem valueAt_of_mem {entries : List (Nat × Value)}
    (ascending : entries.Pairwise fun entry later => entry.1 < later.1) {index : Nat}
    {value : Value} (member : (index, value) ∈ entries) : valueAt entries index = value := by
  induction entries with
  | nil => cases member
  | cons entry rest inductionHypothesis =>
      rw [List.pairwise_cons] at ascending
      rcases List.mem_cons.mp member with rfl | member
      · exact if_pos rfl
      · have later := ascending.1 _ member
        rw [valueAt, if_neg (Nat.ne_of_lt later)]
        exact inductionHypothesis ascending.2 member

theorem toList_ascending (slots : Slots) :
    slots.toList.Pairwise fun entry later => entry.1 < later.1 :=
  slots.ordered_keys_toList.imp Nat.compare_eq_lt.mp

theorem valueAt_toList (slots : Slots) (index : Nat) :
    valueAt slots.toList index = slots.getD index (.integer 0) := by
  rw [Std.ExtTreeMap.getD_eq_getD_getElem?]
  cases found : slots[index]? with
  | some value =>
      exact valueAt_of_mem (toList_ascending slots)
        (Std.ExtTreeMap.mem_toList_iff_getElem?_eq_some.mpr found)
  | none =>
      apply valueAt_of_not_mem
      rintro ⟨other, value⟩ member rfl
      rw [Std.ExtTreeMap.mem_toList_iff_getElem?_eq_some, found] at member
      cases member

/-- Entries with ascending indexes from a bound on that are alike: either side can
have entries of its own that hold zero. -/
inductive EntriesAlike (matching : Matching) :
    Nat → List (Nat × Value) → List (Nat × Value) → Prop where
  | nil (bound : Nat) : EntriesAlike matching bound [] []
  | both {bound index : Nat} {value other : Value} {rest others : List (Nat × Value)}
      (above : bound ≤ index) (matched : matching.Values value other)
      (later : EntriesAlike matching (index + 1) rest others) :
      EntriesAlike matching bound ((index, value) :: rest) ((index, other) :: others)
  | left {bound index : Nat} {rest others : List (Nat × Value)} (above : bound ≤ index)
      (later : EntriesAlike matching (index + 1) rest others) :
      EntriesAlike matching bound ((index, .integer 0) :: rest) others
  | right {bound index : Nat} {rest others : List (Nat × Value)} (above : bound ≤ index)
      (later : EntriesAlike matching (index + 1) rest others) :
      EntriesAlike matching bound rest ((index, .integer 0) :: others)

/-- Ascending entries with indexes from a bound on. -/
def AscendingFrom (bound : Nat) (entries : List (Nat × Value)) : Prop :=
  (∀ entry ∈ entries, bound ≤ entry.1) ∧ entries.Pairwise fun entry later => entry.1 < later.1

theorem AscendingFrom.tail {bound index : Nat} {value : Value} {rest : List (Nat × Value)}
    (ascending : AscendingFrom bound ((index, value) :: rest)) : AscendingFrom (index + 1) rest :=
  ⟨(List.pairwise_cons.mp ascending.2).1, (List.pairwise_cons.mp ascending.2).2⟩

theorem AscendingFrom.raise {bound index first : Nat} {value : Value}
    {rest : List (Nat × Value)} (ascending : AscendingFrom bound ((first, value) :: rest))
    (before : index < first) : AscendingFrom (index + 1) ((first, value) :: rest) := by
  refine ⟨List.forall_mem_cons.mpr ⟨before, fun entry member => ?_⟩, ascending.2⟩
  have later := ascending.tail.1 entry member
  omega

/-- An ascending list holds zero at the indexes before its bound. -/
theorem AscendingFrom.valueAt_eq_zero {bound index : Nat} {entries : List (Nat × Value)}
    (ascending : AscendingFrom bound entries) (below : index < bound) :
    valueAt entries index = .integer 0 := by
  apply valueAt_of_not_mem
  intro entry member
  have above := ascending.1 entry member
  omega

/-- An entry that holds zero holds what is read where no entry is. -/
theorem AscendingFrom.valueAt_cons_zero {bound index : Nat} {rest : List (Nat × Value)}
    (ascending : AscendingFrom bound ((index, .integer 0) :: rest)) (wanted : Nat) :
    valueAt ((index, .integer 0) :: rest) wanted = valueAt rest wanted := by
  rw [valueAt]
  split
  · next isIndex => rw [← isIndex, ascending.tail.valueAt_eq_zero (Nat.lt_succ_self index)]
  · rfl

/-- Ascending entries are alike if they hold matching values at every index. -/
theorem entriesAlike_of_valueAt {bound : Nat} {entries others : List (Nat × Value)}
    (ascending : AscendingFrom bound entries) (otherAscending : AscendingFrom bound others)
    (alike : ∀ index, matching.Values (valueAt entries index) (valueAt others index)) :
    EntriesAlike matching bound entries others := by
  -- An index that only one side has comes first there, and holds zero.
  have left : ∀ {index value rest}, entries = (index, value) :: rest →
      AscendingFrom (index + 1) others → EntriesAlike matching bound entries others := by
    rintro index value rest rfl otherLater
    obtain rfl : value = .integer 0 := by
      have matched := alike index
      rw [valueAt, if_pos rfl, otherLater.valueAt_eq_zero (Nat.lt_succ_self index)] at matched
      exact matched.eq_zero_of_right
    refine .left (ascending.1 _ List.mem_cons_self)
      (entriesAlike_of_valueAt ascending.tail otherLater fun wanted => ?_)
    rw [← ascending.valueAt_cons_zero]
    exact alike wanted
  have right : ∀ {index value rest}, others = (index, value) :: rest →
      AscendingFrom (index + 1) entries → EntriesAlike matching bound entries others := by
    rintro index value rest rfl later
    obtain rfl : value = .integer 0 := by
      have matched := alike index
      rw [valueAt, if_pos rfl, later.valueAt_eq_zero (Nat.lt_succ_self index)] at matched
      exact matched.eq_zero_of_left
    refine .right (otherAscending.1 _ List.mem_cons_self)
      (entriesAlike_of_valueAt later otherAscending.tail fun wanted => ?_)
    rw [← otherAscending.valueAt_cons_zero]
    exact alike wanted
  match entries, others with
  | [], [] => exact .nil bound
  | [], (index, value) :: rest => exact right rfl ⟨nofun, .nil⟩
  | (index, value) :: rest, [] => exact left rfl ⟨nofun, .nil⟩
  | (index, value) :: rest, (otherIndex, other) :: otherRest =>
      rcases Nat.lt_trichotomy index otherIndex with before | rfl | after
      · exact left rfl (otherAscending.raise before)
      · have matched := alike index
        rw [valueAt, if_pos rfl, valueAt, if_pos rfl] at matched
        refine .both (ascending.1 _ List.mem_cons_self) matched
          (entriesAlike_of_valueAt ascending.tail otherAscending.tail fun wanted => ?_)
        by_cases isIndex : index = wanted
        · subst isIndex
          rw [ascending.tail.valueAt_eq_zero (Nat.lt_succ_self index),
            otherAscending.tail.valueAt_eq_zero (Nat.lt_succ_self index)]
          exact .integer 0
        · have matched := alike wanted
          rw [valueAt, if_neg isIndex, valueAt, if_neg isIndex] at matched
          exact matched
      · exact right rfl (ascending.raise after)
termination_by entries.length + others.length

theorem Alike.entriesAlike (alike : Alike matching first second) {left right : Nat}
    (matched : matching.Locations left right) :
    EntriesAlike matching 0 (first.slots left).toList (second.slots right).toList := by
  refine entriesAlike_of_valueAt ⟨fun _ _ => Nat.zero_le _, toList_ascending _⟩
    ⟨fun _ _ => Nat.zero_le _, toList_ascending _⟩ fun index => ?_
  rw [valueAt_toList, valueAt_toList]
  exact alike.read matched index

/-! ## Copying -/

theorem copyEntries_cons_zero {copy : Value → Copying Value} {store : Store}
    (zero : copy (.integer 0) store = .ok (.integer 0) store) (slots : Slots) (index : Nat)
    (rest : List (Nat × Value)) :
    copyEntries copy slots ((index, .integer 0) :: rest) store =
      copyEntries copy (slots.insert index (.integer 0)) rest store := by
  show EStateM.bind (copy (.integer 0)) _ store = _
  rw [EStateM.bind, zero]

/-- Entries that are alike are copied alike. -/
theorem coupled_copyEntries {copy : Value → Copying Value}
    (zero : ∀ store, copy (.integer 0) store = .ok (.integer 0) store)
    (copies : ∀ {value other : Value} {first second : Store}, Alike matching first second →
      matching.Values value other →
      Coupled (fun copied newer otherCopied otherNewer => Alike matching newer otherNewer ∧
        matching.Values copied otherCopied) (fun _ _ => True) (copy value first)
        (copy other second))
    {bound : Nat} {entries others : List (Nat × Value)}
    (entriesAlike : EntriesAlike matching bound entries others) {slots otherSlots : Slots}
    (alike : Alike matching first second) (slotsAlike : matching.SlotsAlike slots otherSlots)
    (unset : UnsetFrom bound slots) (otherUnset : UnsetFrom bound otherSlots) :
    Coupled (fun filled newer otherFilled otherNewer => Alike matching newer otherNewer ∧
      matching.SlotsAlike filled otherFilled) (fun _ _ => True)
      (copyEntries copy slots entries first) (copyEntries copy otherSlots others second) := by
  induction entriesAlike generalizing first second slots otherSlots with
  | nil => exact .ok ⟨alike, slotsAlike⟩
  | both above matched _ inductionHypothesis =>
      refine (copies alike matched).bind fun copied => ?_
      exact inductionHypothesis copied.1 (slotsAlike.insert _ copied.2) (unset.insert above _)
        (otherUnset.insert above _)
  | left above _ inductionHypothesis =>
      rw [copyEntries_cons_zero (zero first)]
      exact inductionHypothesis alike (slotsAlike.insert_zero_left (otherUnset _ above))
        (unset.insert above _) (otherUnset.raise (Nat.le_succ_of_le above))
  | right above _ inductionHypothesis =>
      rw [copyEntries_cons_zero (zero second)]
      exact inductionHypothesis alike (slotsAlike.insert_zero_right (unset _ above))
        (unset.raise (Nat.le_succ_of_le above)) (otherUnset.insert above _)

/-- Matching values are copied alike. -/
theorem coupled_copyInRoom (room : Nat) {value other : Value} (alike : Alike matching first second)
    (matched : matching.Values value other) :
    Coupled (fun copied newer otherCopied otherNewer => Alike matching newer otherNewer ∧
      matching.Values copied otherCopied) (fun _ _ => True) (copyInRoom room value first)
      (copyInRoom room other second) := by
  induction room generalizing value other first second with
  | zero =>
      cases matched with
      | integer value => exact .ok ⟨alike, .integer value⟩
      | function allowed => exact .ok ⟨alike, .function allowed⟩
      | array => exact .error trivial
  | succ room inductionHypothesis =>
      cases matched with
      | integer value => exact .ok ⟨alike, .integer value⟩
      | function allowed => exact .ok ⟨alike, .function allowed⟩
      | array matched =>
          have filled := coupled_copyEntries (fun store => copyInRoom_of_not_array nofun)
            inductionHypothesis (alike.entriesAlike matched) alike Matching.slotsAlike_empty
            (unsetFrom_empty 0) (unsetFrom_empty 0)
          exact filled.bind fun both => .ok (both.1.allocate _ both.2)

/-! ## Loading -/

mutual

/-- Values with the same normal form are loaded alike. -/
theorem Alike.load {first second : Store} (alike : Alike matching first second) (level : Nat)
    {value other : StateValue} (same : value.norm = other.norm) :
    Alike matching (first.load level value).2 (second.load level other).2 ∧
      matching.Values (first.load level value).1 (second.load level other).1 := by
  match value, other with
  | .integer value, .integer other =>
      cases same
      exact ⟨alike, .integer value⟩
  | .integer value, .list others => cases same
  | .list items, .integer other => cases same
  | .list items, .list others =>
      obtain ⟨filledAlike, slotsAlike⟩ := alike.loadItems (level + 1) 0
        (StateValue.norm_list_eq_iff.mp same) Matching.slotsAlike_empty (unsetFrom_empty 0)
        (unsetFrom_empty 0)
      exact filledAlike.allocate level slotsAlike
termination_by sizeOf value + sizeOf other

theorem Alike.loadItems {first second : Store} (alike : Alike matching first second)
    (level index : Nat) {items others : List StateValue} {slots otherSlots : Slots}
    (same : ∀ offset,
      (StateValue.itemAt items offset).norm = (StateValue.itemAt others offset).norm)
    (slotsAlike : matching.SlotsAlike slots otherSlots) (unset : UnsetFrom index slots)
    (otherUnset : UnsetFrom index otherSlots) :
    Alike matching (first.loadItems level index slots items).2
        (second.loadItems level index otherSlots others).2 ∧
      matching.SlotsAlike (first.loadItems level index slots items).1
        (second.loadItems level index otherSlots others).1 := by
  have atEnd := Nat.le_refl index
  match items, others with
  | [], [] => exact ⟨alike, slotsAlike⟩
  | item :: rest, [] =>
      obtain rfl : item = .integer 0 := StateValue.norm_eq_zero_iff.mp (same 0)
      have later : ∀ offset, (StateValue.itemAt rest offset).norm =
          (StateValue.itemAt [] offset).norm := fun offset => same (offset + 1)
      exact alike.loadItems level (index + 1) later
        (slotsAlike.insert_zero_left (otherUnset index atEnd)) (unset.insert atEnd _)
        (otherUnset.raise (Nat.le_succ index))
  | [], other :: others =>
      obtain rfl : other = .integer 0 := StateValue.norm_eq_zero_iff.mp (same 0).symm
      have later : ∀ offset, (StateValue.itemAt [] offset).norm =
          (StateValue.itemAt others offset).norm := fun offset => same (offset + 1)
      exact alike.loadItems level (index + 1) later
        (slotsAlike.insert_zero_right (unset index atEnd)) (unset.raise (Nat.le_succ index))
        (otherUnset.insert atEnd _)
  | item :: rest, other :: others =>
      obtain ⟨itemAlike, matched⟩ := alike.load level (same 0)
      exact itemAlike.loadItems level (index + 1) (fun offset => same (offset + 1))
        (slotsAlike.insert index matched) (unset.insert atEnd _) (otherUnset.insert atEnd _)
termination_by sizeOf items + sizeOf others

end

end Store

end Scriptlet
