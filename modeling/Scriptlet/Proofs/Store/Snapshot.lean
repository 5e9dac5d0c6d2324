import Scriptlet.Proofs.Store.Copy
import Scriptlet.Proofs.Store.Dense

/-!
Contract: a copy that is stored in a slot is a snapshot.

Owns:
- stores that extend others: the arrays that were there have the slots they had;
- a copy reads back as what was copied, at every height;
- writing a copy changes what is read back only from the arrays from which the
  written one is reachable;
- stores in which the arrays that were there are held only by the slots that held
  them, so that a copy and what it was made of stay apart.
-/

namespace Scriptlet

namespace Store

variable {store older middle newer : Store} {deepest : Nat}

/-! ## Extensions -/

/-- Whether the arrays of a store are in another one, with the same slots. -/
structure Extends (older newer : Store) : Prop where
  size_le : older.cells.size ≤ newer.cells.size
  slots_eq : ∀ {location : Nat}, location < older.cells.size →
    newer.slots location = older.slots location

theorem Extends.refl (store : Store) : Extends store store :=
  ⟨Nat.le_refl _, fun _ => rfl⟩

theorem Extends.trans (first : Extends older middle) (second : Extends middle newer) :
    Extends older newer where
  size_le := Nat.le_trans first.size_le second.size_le
  slots_eq inside :=
    (second.slots_eq (Nat.lt_of_lt_of_le inside first.size_le)).trans (first.slots_eq inside)

theorem extends_allocate (store : Store) (cell : Cell) : Extends store (store.allocate cell).2 where
  size_le := by simp [allocate]
  slots_eq {location} inside := by
    show (Store.mk (store.cells.push cell)).slots location = _
    rw [slots_push, if_neg (Nat.ne_of_lt inside)]

/-- Copying extends the store. -/
def copyingExtends (older : Store) : CopyRule where
  Inv := Extends older
  Source _ := True
  Copy _ := True
  source _ _ := trivial
  copy _ _ := trivial
  allocate _ _ known _ := ⟨known.trans (extends_allocate _ _), trivial⟩

theorem extends_of_copyInRoom {room : Nat} {value copy : Value}
    (copied : copyInRoom room value older = .ok copy newer) : Extends older newer :=
  ((copyingExtends older).copyInRoom (.refl older) trivial copied).1

/-- What is read back from a store is read back from every extension of it. -/
theorem Labelled.stateValueUpTo_of_extends (labelled : older.Labelled deepest)
    (known : Extends older newer) {value : Value} (has : older.Has value) (height : Nat) :
    newer.stateValueUpTo height value = older.stateValueUpTo height value :=
  stateValueUpTo_eq_of_agree (· < older.cells.size) known.slots_eq
    (fun _ => labelled.lt_size_of_holds) height has

theorem Has.extend {value : Value} (has : older.Has value) (known : Extends older newer) :
    newer.Has value :=
  fun location isArray => Nat.lt_of_lt_of_le (has location isArray) known.size_le

theorem Labelled.has_of_found (labelled : store.Labelled deepest) {location index : Nat}
    {value : Value} (found : (store.slots location)[index]? = some value) : store.Has value := by
  intro held isArray
  subst isArray
  exact labelled.lt_size_of_holds found

/-! ## Copies -/

/-- Whether a value of a newer store reads back as one of an older store, at every
height. -/
def Mirrors (older : Store) (value : Value) (newer : Store) (copy : Value) : Prop :=
  ∀ height, newer.stateValueUpTo height copy = older.stateValueUpTo height value

/-- What a copy that was made is: the store was extended and is a forest, and the
copy is in it and reads back as what was copied. -/
structure IsCopy (deepest : Nat) (older : Store) (value : Value) (newer : Store) (copy : Value) :
    Prop where
  labelled : newer.Labelled deepest
  extends_older : Extends older newer
  has : newer.Has copy
  mirrors : Mirrors older value newer copy

theorem labelled_of_copyInRoom {room : Nat} (inside : room ≤ maxArrayNesting + 1)
    (deep : maxArrayNesting ≤ deepest) {value copy : Value} (labelled : older.Labelled deepest)
    (copied : copyInRoom room value older = .ok copy newer) :
    newer.Labelled deepest ∧ Fresh older newer (maxArrayNesting + 1 - room) copy := by
  have leaves := leaves_copyInRoom inside deep value labelled
  rw [copied] at leaves
  exact ⟨leaves.1, leaves.2.2⟩

/-- What is copied entry by entry mirrors the entries. -/
theorem mirrors_of_copyEntries {copy : Value → Copying Value} {base : Store}
    (baseLabelled : base.Labelled deepest)
    (copies : ∀ {value store copied newer}, store.Labelled deepest → store.Has value →
      copy value store = .ok copied newer → IsCopy deepest store value newer copied)
    {entries : List (Nat × Value)} {slots filled : Slots} (labelled : store.Labelled deepest)
    (known : Extends base store) (has : ∀ entry ∈ entries, base.Has entry.2)
    (success : copyEntries copy slots entries store = .ok filled newer) :
    newer.Labelled deepest ∧ Extends store newer ∧
      ∀ {index : Nat} {found : Value}, filled[index]? = some found →
        slots[index]? = some found ∨
          ∃ value, (index, value) ∈ entries ∧ newer.Has found ∧
            Mirrors base value newer found := by
  induction entries generalizing slots store with
  | nil =>
      cases success
      exact ⟨labelled, .refl _, .inl⟩
  | cons entry rest inductionHypothesis =>
      obtain ⟨index, value⟩ := entry
      obtain ⟨stored, middle, copied, success⟩ := copyEntries_cons_eq_ok_iff.mp success
      rw [List.forall_mem_cons] at has
      obtain ⟨middleLabelled, middleExtends, storedHas, mirrors⟩ :=
        copies labelled (has.1.extend known) copied
      obtain ⟨newerLabelled, newerExtends, isCopied⟩ :=
        inductionHypothesis middleLabelled (known.trans middleExtends) has.2 success
      refine ⟨newerLabelled, middleExtends.trans newerExtends, fun {other found} isFound => ?_⟩
      rcases isCopied isFound with wasSet | ⟨source, member, copyIs⟩
      · rw [getElem?_insert_slots] at wasSet
        split at wasSet
        · next sameIndex =>
            -- This entry was just copied, and copying the rest extends the store.
            cases sameIndex
            cases wasSet
            refine .inr ⟨value, List.mem_cons_self, storedHas.extend newerExtends, fun height => ?_⟩
            rw [middleLabelled.stateValueUpTo_of_extends newerExtends storedHas, mirrors,
              baseLabelled.stateValueUpTo_of_extends known has.1]
        · exact .inl wasSet
      · exact .inr ⟨source, List.mem_cons_of_mem _ member, copyIs⟩

/-- An array made of copies of the entries of another one mirrors it. -/
theorem mirrors_push {location level : Nat} {slots : Slots}
    (middleLabelled : middle.Labelled deepest)
    (keys : ∀ {index : Nat}, index ∈ slots ↔ index ∈ older.slots location)
    (entries : ∀ {index : Nat} {found : Value}, slots[index]? = some found →
      ∃ value, (older.slots location)[index]? = some value ∧ middle.Has found ∧
        Mirrors older value middle found) :
    Mirrors older (.array location) ⟨middle.cells.push ⟨level, slots⟩⟩
      (.array middle.cells.size) := by
  have known : Extends middle ⟨middle.cells.push ⟨level, slots⟩⟩ := extends_allocate _ _
  intro height
  cases height with
  | zero => rfl
  | succ height =>
      simp only [stateValueUpTo, slots_push, if_true]
      refine congrArg (fun items => some (StateValue.list (denseList items))) ?_
      apply Std.ExtTreeMap.ext_getElem?
      intro index
      rw [Std.ExtTreeMap.getElem?_map, Std.ExtTreeMap.getElem?_map]
      cases isFound : slots[index]? with
      | none =>
          have absent : index ∉ older.slots location := by
            rw [← keys, Std.ExtTreeMap.mem_iff_isSome_getElem?, isFound]
            exact Bool.false_ne_true
          rw [Std.ExtTreeMap.getElem?_eq_none absent]
          rfl
      | some found =>
          obtain ⟨value, isValue, has, mirrors⟩ := entries isFound
          rw [isValue]
          simp only [Option.map_some, middleLabelled.stateValueUpTo_of_extends known has,
            mirrors height]

/-- A copy reads back as what was copied. -/
theorem isCopy_of_copyInRoom {room : Nat} (inside : room ≤ maxArrayNesting + 1)
    (deep : maxArrayNesting ≤ deepest) {value copy : Value} (labelled : older.Labelled deepest)
    (has : older.Has value) (copied : copyInRoom room value older = .ok copy newer) :
    IsCopy deepest older value newer copy := by
  induction room using Nat.strongRecOn generalizing value copy older newer with
  | ind room inductionHypothesis =>
      obtain ⟨newerLabelled, fresh⟩ := labelled_of_copyInRoom inside deep labelled copied
      refine ⟨newerLabelled, extends_of_copyInRoom copied, fresh.has, ?_⟩
      by_cases isArray : ∃ location, value = .array location
      · obtain ⟨location, rfl⟩ := isArray
        obtain ⟨less, slots, middle, rfl, filled, rfl, rfl⟩ := copyInRoom_array_eq_ok copied
        have entriesHave : ∀ entry ∈ (older.slots location).toList, older.Has entry.2 :=
          fun entry member =>
            labelled.has_of_found (Std.ExtTreeMap.mem_toList_iff_getElem?_eq_some.mp member)
        obtain ⟨middleLabelled, _, isCopied⟩ := mirrors_of_copyEntries labelled
          (inductionHypothesis less (Nat.lt_succ_self less) (Nat.le_of_succ_le inside)) labelled
          (.refl older) entriesHave filled
        refine mirrors_push middleLabelled ?_ ?_
        · intro index
          rw [mem_of_copyEntries filled, Std.ExtTreeMap.map_fst_toList_eq_keys,
            Std.ExtTreeMap.mem_keys]
          simp
        · intro index found isFound
          rcases isCopied isFound with wasSet | ⟨value, member, copyIs⟩
          · simp at wasSet
          · exact ⟨value, Std.ExtTreeMap.mem_toList_iff_getElem?_eq_some.mp member, copyIs⟩
      · rw [copyInRoom_of_not_array fun location isArray' => isArray ⟨location, isArray'⟩] at copied
        cases copied
        exact fun _ => rfl

/-! ## Writing a copy -/

/-- Whether a value of a newer store is equal to one of an older store: they are
the same, or are arrays that read back as the same list. -/
def equalAcross (older : Store) (value : Value) (newer : Store) (other : Value) : Bool :=
  match value, other with
  | .integer left, .integer right => left == right
  | .array left, .array right =>
      older.stateValue (.array left) == newer.stateValue (.array right)
  | .function left, .function right => left == right
  | _, _ => false

/-- In one store, values are equal across it exactly if they are equal in it. -/
theorem equalAcross_self (store : Store) (left right : Value) :
    store.equalAcross left store right = store.equal left right := by
  cases left with
  | integer => cases right <;> rfl
  | function => cases right <;> rfl
  | array left =>
      cases right with
      | integer | function => rfl
      | array right =>
          by_cases same : left = right
          · simp [equalAcross, equal, same]
          · simp [equalAcross, equal, same]

/-- An array that is read from a slot is held by it. -/
theorem holds_of_read {location index held : Nat}
    (isRead : store.read location index = .array held) : store.Holds location index held := by
  rw [read, Std.ExtTreeMap.getD_eq_getD_getElem?] at isRead
  cases found : (store.slots location)[index]? with
  | none => simp [found] at isRead
  | some value =>
      rw [found] at isRead
      exact found.trans (congrArg some isRead)

theorem read_write_self {location : Nat} (inside : location < store.cells.size) (index : Nat)
    (value : Value) : (store.write location index value).read location index = value := by
  rw [read, slots_write_self inside, Std.ExtTreeMap.getD_insert_self]

theorem read_write_of_ne {location index other : Nat} (inside : location < store.cells.size)
    (different : other ≠ index) (value : Value) :
    (store.write location index value).read location other = store.read location other := by
  simp only [read, slots_write_self inside, Std.ExtTreeMap.getD_eq_getD_getElem?]
  rw [getElem?_insert_slots, if_neg different.symm]

/-- A write shows only in arrays from which the written one is reachable. -/
theorem stateValue_write_of_not_reachable {outer location : Nat}
    (apart : ¬ store.Reachable outer location) (index : Nat) (value : Value) :
    (store.write location index value).stateValue (.array outer) =
      store.stateValue (.array outer) := by
  rw [stateValue, stateValue, size_write]
  refine stateValueUpTo_eq_of_agree (store.Reachable outer) ?_ ?_ _ ?_
  · intro inner reachable
    apply slots_write_of_ne
    rintro rfl
    exact apart reachable
  · exact fun reachable holds => reachable.tail ⟨_, holds⟩
  · rintro _ ⟨⟩
    exact .refl

/-! ## Holders -/

/-- Whether the arrays of a store are held, in another one, only by slots that held
them. -/
structure KeepsHolders (older newer : Store) : Prop where
  size_le : older.cells.size ≤ newer.cells.size
  holder_kept : ∀ {holder index held : Nat}, held < older.cells.size →
    newer.Holds holder index held → older.Holds holder index held

theorem KeepsHolders.refl (store : Store) : KeepsHolders store store :=
  ⟨Nat.le_refl _, fun _ => id⟩

theorem KeepsHolders.trans (first : KeepsHolders older middle)
    (second : KeepsHolders middle newer) : KeepsHolders older newer where
  size_le := Nat.le_trans first.size_le second.size_le
  holder_kept inside holds :=
    first.holder_kept inside (second.holder_kept (Nat.lt_of_lt_of_le inside first.size_le) holds)

/-- Whether a value, if it is an array, was made since a store. -/
def MadeSince (older : Store) (value : Value) : Prop :=
  ∀ location, value = .array location → older.cells.size ≤ location

theorem KeepsHolders.allocate (keeps : KeepsHolders older newer) (level : Nat) {slots : Slots}
    (made : ∀ {index : Nat} {value : Value}, slots[index]? = some value → older.MadeSince value) :
    KeepsHolders older (newer.allocate ⟨level, slots⟩).2 where
  size_le := Nat.le_trans keeps.size_le (extends_allocate newer _).size_le
  holder_kept inside holds := by
    rcases holds_push.mp holds with ⟨_, found⟩ | holds
    · exact absurd inside (Nat.not_lt.mpr (made found _ rfl))
    · exact keeps.holder_kept inside holds

theorem KeepsHolders.write (keeps : KeepsHolders older newer) (location index : Nat)
    {value : Value} (made : older.MadeSince value) :
    KeepsHolders older (newer.write location index value) where
  size_le := by
    rw [size_write]
    exact keeps.size_le
  holder_kept inside holds := by
    rcases holds_write holds with ⟨_, _, isValue⟩ | holds
    · exact absurd inside (Nat.not_lt.mpr (made _ isValue))
    · exact keeps.holder_kept inside holds

/-- Copying keeps holders, and the arrays it makes are new. -/
def copyingKeepsHolders (older : Store) : CopyRule where
  Inv := KeepsHolders older
  Source _ := True
  Copy := older.MadeSince
  source _ _ := trivial
  copy notArray _ location isArray := absurd isArray (notArray location)
  allocate level _ keeps made := by
    refine ⟨keeps.allocate level made, ?_⟩
    rintro _ ⟨⟩
    exact keeps.size_le

theorem keepsHolders_of_copyInRoom {room : Nat} {value copy : Value}
    (copied : copyInRoom room value older = .ok copy newer) :
    KeepsHolders older newer ∧ older.MadeSince copy :=
  (copyingKeepsHolders older).copyInRoom (.refl older) trivial copied

/-- An array that was made since a store leads only to such arrays. -/
theorem KeepsHolders.size_le_of_reachable (keeps : KeepsHolders older newer) {root inner : Nat}
    (made : older.cells.size ≤ root) (reachable : newer.Reachable root inner) :
    older.cells.size ≤ inner := by
  induction reachable with
  | refl => exact made
  | tail _ held holderMade =>
      obtain ⟨index, holds⟩ := held
      refine Nat.le_of_not_lt fun isOld => ?_
      exact absurd (keeps.holder_kept isOld holds).lt_size (Nat.not_lt.mpr holderMade)

/-! ## Snapshots -/

/-- What storing a value in a slot makes of a store. -/
structure StoresSnapshot (older : Store) (location index : Nat) (value : Value) (newer : Store) :
    Prop where
  /-- The slot holds a value equal to what the stored one was. -/
  equal : older.equalAcross value newer (newer.read location index) = true
  /-- The other slots of the array hold what they held. -/
  others : ∀ other, other ≠ index → newer.read location other = older.read location other
  /-- An array from which the written one was not reachable reads back as it did. -/
  unchanged : ∀ {array : Nat}, array < older.cells.size → ¬ older.Reachable array location →
    newer.stateValue (.array array) = older.stateValue (.array array)
  /-- What the slot holds shares no array with those that existed. -/
  apart : ∀ {root inner : Nat}, newer.read location index = .array root →
    newer.Reachable root inner → older.cells.size ≤ inner

section

variable {location level : Nat} {value copy : Value}

/-- A copy that was written reads back as what was copied. -/
theorem IsCopy.stateValue_write (isCopy : IsCopy deepest older value newer copy)
    (labelled : older.Labelled deepest) (has : older.Has value)
    (keeps : KeepsHolders older newer) (made : older.MadeSince copy)
    (inside : location < older.cells.size) (index : Nat) :
    (newer.write location index copy).stateValue copy = older.stateValue value := by
  have agrees : (newer.write location index copy).stateValueUpTo newer.cells.size copy =
      newer.stateValueUpTo newer.cells.size copy := by
    -- The written array existed, and the copy leads only to arrays that did not.
    refine stateValueUpTo_eq_of_agree (older.cells.size ≤ ·) ?_ ?_ _ made
    · exact fun isNew => slots_write_of_ne (by omega) index copy
    · exact fun isNew holds => keeps.size_le_of_reachable isNew (.single ⟨_, holds⟩)
  rw [stateValue, size_write, agrees, isCopy.mirrors]
  exact labelled.stateValueUpTo_eq_stateValue has isCopy.extends_older.size_le

theorem equalAcross_of_copyInRoom {room : Nat}
    (copied : copyInRoom room value older = .ok copy newer) {after : Store}
    (same : after.stateValue copy = older.stateValue value) :
    older.equalAcross value after copy = true := by
  by_cases isArray : ∃ location, value = .array location
  · obtain ⟨location, rfl⟩ := isArray
    obtain ⟨_, _, middle, _, _, rfl, _⟩ := copyInRoom_array_eq_ok copied
    simp only [equalAcross, same, beq_self_eq_true]
  · have notArray : ∀ location, value ≠ .array location :=
      fun location isArray' => isArray ⟨location, isArray'⟩
    cases (copyInRoom_of_not_array notArray).symm.trans copied
    cases value with
    | array location => exact absurd rfl (notArray location)
    | integer | function => exact beq_self_eq_true _

/-- Writing the copy of a value that was made for a slot stores a snapshot. -/
theorem storesSnapshot_of_copyAt (deep : maxArrayNesting ≤ deepest)
    (labelled : older.Labelled deepest) (has : older.Has value)
    (inside : location < older.cells.size) (copied : copyAt level value older = .ok copy newer)
    (index : Nat) :
    StoresSnapshot older location index value (newer.write location index copy) := by
  have isCopy := isCopy_of_copyInRoom (Nat.sub_le _ _) deep labelled has copied
  obtain ⟨keeps, made⟩ := keepsHolders_of_copyInRoom copied
  have known := isCopy.extends_older
  have insideNewer := Nat.lt_of_lt_of_le inside known.size_le
  have isRead := read_write_self insideNewer index copy
  refine ⟨?_, fun other different => ?_, fun {array} isOld apart => ?_, ?_⟩
  · rw [isRead]
    exact equalAcross_of_copyInRoom copied
      (isCopy.stateValue_write labelled has keeps made inside index)
  · rw [read_write_of_ne insideNewer different, read, read, known.slots_eq inside]
  · have agrees : (newer.write location index copy).stateValueUpTo newer.cells.size
        (.array array) = older.stateValueUpTo newer.cells.size (.array array) := by
      refine stateValueUpTo_eq_of_agree (older.Reachable array) ?_ ?_ _ ?_
      · intro inner reachable
        have different : inner ≠ location := by
          rintro rfl
          exact apart reachable
        rw [slots_write_of_ne different,
          known.slots_eq (labelled.lt_size_of_reachable isOld reachable)]
      · exact fun reachable holds => reachable.tail ⟨_, holds⟩
      · rintro _ ⟨⟩
        exact .refl
    rw [stateValue, size_write, agrees]
    apply labelled.stateValueUpTo_eq_stateValue _ known.size_le
    rintro _ ⟨⟩
    exact isOld
  · intro root inner isRoot reachable
    rw [isRead] at isRoot
    exact (keeps.write location index made).size_le_of_reachable (made root isRoot) reachable

end

/-! ## Later writes -/

section

variable {later : Store} {location index root : Nat}

/-- Writes to arrays that existed do not show in an array that was made since. -/
theorem KeepsHolders.stateValue_write_older (keeps : KeepsHolders older later)
    (made : older.cells.size ≤ root) {array : Nat} (isOld : array < older.cells.size)
    (slot : Nat) (value : Value) :
    (later.write array slot value).stateValue (.array root) = later.stateValue (.array root) := by
  apply stateValue_write_of_not_reachable
  intro reachable
  exact absurd isOld (Nat.not_lt.mpr (keeps.size_le_of_reachable made reachable))

/-- An array that was held since it was made is reachable from older arrays only
through its holder. -/
theorem KeepsHolders.reachable_holder (keeps : KeepsHolders newer later)
    (labelled : newer.Labelled deepest) (holds : newer.Holds location index root)
    (made : older.cells.size ≤ root) {array : Nat} (isOld : array < older.cells.size)
    (reachable : later.Reachable array root) : later.Reachable array location := by
  rcases reachable.cases_tail with rfl | ⟨holder, toHolder, slot, laterHolds⟩
  · omega
  · have wasHeld := keeps.holder_kept (labelled.lt_size_of_holds holds) laterHolds
    obtain ⟨rfl, _⟩ := labelled.holder_unique holds wasHeld
    exact toHolder

/-- Writes to what a held array leads to do not show in older arrays from which its
holder is not reachable. -/
theorem KeepsHolders.stateValue_write_newer (keepsOlder : KeepsHolders older newer)
    (keeps : KeepsHolders newer later) (labelled : newer.Labelled deepest)
    (laterLabelled : later.Labelled deepest) (holds : newer.Holds location index root)
    (made : older.cells.size ≤ root) {inner array : Nat} (inside : later.Reachable root inner)
    (isOld : array < older.cells.size) (apart : ¬ later.Reachable array location) (slot : Nat)
    (value : Value) :
    (later.write inner slot value).stateValue (.array array) =
      later.stateValue (.array array) := by
  apply stateValue_write_of_not_reachable
  intro reachable
  rcases laterLabelled.reachable_or_reachable reachable inside with toRoot | fromRoot
  · exact apart (keeps.reachable_holder labelled holds made isOld toRoot)
  · have isNew := (keepsOlder.trans keeps).size_le_of_reachable made fromRoot
    omega

end

end Store

end Scriptlet
