import Scriptlet.Proofs.Run.Arrays
import Scriptlet.Proofs.Store.Height

/-!
Contract: when a value of a run can be copied for a slot, and what its copy is.

Owns:
- copies that are new throughout, stand at a level and read like what was copied;
- the values in sight of a machine;
- copying for a level fails exactly on arrays that are nested too deep for it, and
  else gives such a copy.

The levels that arrays of the initial state are labelled with may exceed the limit.
Where a copy comes to stand is what counts, and not where the value stood.
-/

namespace Scriptlet

namespace Store

/-- What a copy for a level is. -/
structure FreshCopy (older : Store) (value : Value) (level : Nat) (newer : Store) (copy : Value) :
    Prop where
  /-- At each path, the copy and the value read the same, or both as arrays. -/
  reads : ∀ path, Option.Rel SameKind (older.at? value path) (newer.at? copy path)
  equal : newer.equal value copy = true
  /-- The arrays of the copy are new, and stand as deep below its level as the path to
  them is long. -/
  arrays : ∀ path location, newer.at? copy path = some (.array location) →
    older.cells.size ≤ location ∧ newer.level? location = some (level + path.length)
  /-- The arrays that were there, among them those of the value, are as they were. -/
  kept : ∀ location, location < older.cells.size →
    newer.slots location = older.slots location ∧ newer.level? location = older.level? location

variable {older newer : Store} {deepest level : Nat} {value copy : Value}

/-- A copy that was made for a level is such a copy. -/
theorem freshCopy_of_copyAt (deep : maxArrayNesting ≤ deepest) (labelled : older.Labelled deepest)
    (has : older.Has value) (copied : copyAt level value older = .ok copy newer) :
    FreshCopy older value level newer copy := by
  obtain ⟨newerLabelled, grows, fresh⟩ :
      newer.Labelled deepest ∧ Grows older newer ∧ Fresh older newer level copy := by
    have leaves := leaves_copyAt deep level value labelled
    rw [copied] at leaves
    exact leaves
  have known := extends_of_copyInRoom copied
  have isCopy := isCopy_of_copyInRoom (Nat.sub_le _ level) deep labelled has copied
  refine ⟨labelled.at?_of_copyInRoom has (.refl older) copied (.refl newer), ?_, ?_, ?_⟩
  · have sameKind := labelled.at?_of_copyInRoom has (.refl older) copied (.refl newer) []
    cases sameKind with
    | some sameKind =>
        cases sameKind with
        | integer number => exact beq_self_eq_true number
        | function declaration => exact beq_self_eq_true declaration
        | array left right =>
            have same : newer.stateValue (.array left) = newer.stateValue (.array right) := by
              rw [stateValue, labelled.stateValueUpTo_of_extends known has, ← isCopy.mirrors,
                stateValue]
            rw [equal, same, beq_self_eq_true, Bool.or_true]
  · intro path location found
    cases copy with
    | integer | function =>
        cases path with
        | nil => cases found
        | cons => cases found
    | array root =>
        obtain ⟨isNew, isLevel, _⟩ := fresh root rfl
        obtain ⟨reachable, isLevel⟩ := newerLabelled.level?_of_at? isLevel found
        have keeps := (keepsHolders_of_copyInRoom copied).1
        exact ⟨keeps.size_le_of_reachable isNew reachable, isLevel⟩
  · intro location inside
    obtain ⟨level, isLevel⟩ := exists_level?_of_lt inside
    exact ⟨known.slots_eq inside, (grows.level_kept isLevel).trans isLevel.symm⟩

/-- Copying for a level fails exactly if the chains of arrays in the value are too long
below it. -/
theorem copyAt_eq_error_iff (labelled : older.Labelled deepest) (has : older.Has value)
    (positive : 1 ≤ level) :
    (∃ newer, copyAt level value older = .error .arrayNestingExceeded newer) ↔
      (∃ location, value = .array location) ∧ maxArrayNesting < level + older.height value - 1 := by
  obtain ⟨attained, above⟩ := labelled.isGreatest_height has
  constructor
  · rintro ⟨newer, failed⟩
    obtain ⟨_, nests⟩ := labelled.nests_of_copyInRoom_error has (.refl older) failed
    have longer := above nests
    refine ⟨?_, by omega⟩
    cases nests with
    | array location => exact ⟨location, rfl⟩
  · rintro ⟨⟨location, rfl⟩, tooDeep⟩
    have notEmpty := above (Nests.array location 0 (.none _))
    cases outcome : copyAt level (.array location) older with
    | ok copy newer =>
        have fits := labelled.nests_le_of_copyInRoom has (.refl older) outcome attained
        omega
    | error error newer =>
        obtain ⟨rfl, _⟩ := labelled.nests_of_copyInRoom_error has (.refl older) outcome
        exact ⟨newer, rfl⟩

end Store

/-- Whether a value is in sight of a machine: evaluation holds it, a name is bound to
it, or a slot holds it. -/
def Machine.InSight (machine : Machine) (held : List Value) (value : Value) : Prop :=
  value ∈ held ∨ machine.scopes.Binds value ∨
    ∃ location index, machine.store.read location index = value

theorem Machine.Sound.has_of_inSight {deepest : Nat} {machine : Machine} {held : List Value}
    (sound : machine.Sound deepest) (holds : ∀ value ∈ held, machine.store.Has value)
    {value : Value} (inSight : machine.InSight held value) : machine.store.Has value := by
  rcases inSight with member | binds | ⟨location, index, rfl⟩
  · exact holds value member
  · exact sound.has_of_binds binds
  · exact sound.labelled.has_read location index

namespace Program

variable {program : Program} {initial : State} {limits : Limits} {random : RandomSource}

/-- Copying for a level fails exactly on arrays that are too high for it, and else gives
a fresh equal copy.  The height of a value is the number of arrays on its longest chain
of nested arrays.  A value in sight of a machine that a run comes to cannot be copied
for a level exactly if it is an array and its lowest array would come to stand below the
limit of 256; copying it then fails for that reason. -/
theorem copyAt_exact {machine : Machine} {held : List Value}
    (reaches : program.Reaches initial limits random machine held) {value : Value}
    (inSight : machine.InSight held value) {level : Nat} (positive : 1 ≤ level) :
    IsGreatest {count | machine.store.Nests value count} (machine.store.height value) ∧
    ((∃ newer, Store.copyAt level value machine.store = .error .arrayNestingExceeded newer) ↔
      (∃ location, value = .array location) ∧ 256 < level + machine.store.height value - 1) ∧
    (¬ ((∃ location, value = .array location) ∧ 256 < level + machine.store.height value - 1) →
      ∃ copy newer, Store.copyAt level value machine.store = .ok copy newer ∧
        machine.store.FreshCopy value level newer copy) := by
  obtain ⟨sound, holds⟩ :=
    reaches.sound (Nat.le_max_left maxArrayNesting initial.nesting) (Nat.le_max_right _ _)
  have has := sound.has_of_inSight holds inSight
  have failure := Store.copyAt_eq_error_iff sound.labelled has positive
  refine ⟨sound.labelled.isGreatest_height has, failure, fun shallow => ?_⟩
  cases outcome : Store.copyAt level value machine.store with
  | ok copy newer =>
      exact ⟨copy, newer, rfl,
        Store.freshCopy_of_copyAt (Nat.le_max_left _ _) sound.labelled has outcome⟩
  | error error newer =>
      obtain ⟨rfl, _⟩ := sound.labelled.nests_of_copyInRoom_error has (.refl _) outcome
      exact absurd (failure.mp ⟨newer, outcome⟩) shallow

/-- Makes an array of height three, next to a slot that was not set. -/
def nestsThrice : Program where
  features := FeatureSet.all
  body := [.assign "a" (.array [.integer 1]),
    .store (.name "a") (.integer 2) (.array [.array [], .integer 2])]

theorem copyAt_exact_nestsThrice :
    let final := (nestsThrice.execution Limits.default (fun _ => 0) none 8).final
      (Machine.ofState ∅)
    ∃ location, final.scopes.globals["a"]? = some (.array location) ∧
      final.store.height (.array location) = 3 ∧
      (∃ newer, Store.copyAt 255 (.array location) final.store =
        .error .arrayNestingExceeded newer) ∧
      ∃ copy newer, Store.copyAt 254 (.array location) final.store = .ok copy newer ∧
        final.store.FreshCopy (.array location) 254 newer copy := by
  intro final
  have bound : final.scopes.globals["a"]? = some (.array 0) := by decide +kernel
  have isHeight : final.store.height (.array 0) = 3 := by decide +kernel
  have inSight : final.InSight [] (.array 0) := .inr (.inl (.inl ⟨"a", bound⟩))
  have copies (level : Nat) (positive : 1 ≤ level) :=
    (copyAt_exact (reaches_execution none 8) inSight positive).2
  rw [isHeight] at copies
  exact ⟨0, bound, isHeight, (copies 255 (by decide)).1.mpr ⟨⟨0, rfl⟩, by decide⟩,
    (copies 254 (by decide)).2 fun tooDeep => absurd tooDeep.2 (by decide)⟩

end Program

end Scriptlet
