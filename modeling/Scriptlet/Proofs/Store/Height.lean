import Mathlib.Order.Bounds.Basic
import Scriptlet.Proofs.Store.Snapshot

/-!
Contract: how deep arrays are nested in a value, and which copies that allows.

Owns:
- chains of nested arrays, and the height of a value: the arrays on its longest
  chain;
- what is read along a path of indexes;
- a value is copied into some room exactly if its height is not above the room, and
  no other failure is possible;
- a copy reads like what was copied along every path, and all its arrays are new
  and labelled by the length of the path to them.

Labels play no part in the height: only what slots hold does.
-/

namespace Scriptlet

namespace Store

variable {store older newer before after : Store} {deepest : Nat}

/-! ## Height -/

/-- Whether a chain of a number of arrays, each held by the one before it, starts at
a value. -/
inductive Nests (store : Store) : Value → Nat → Prop where
  | none (value : Value) : Nests store value 0
  | array (location index : Nat) {count : Nat} :
      Nests store (store.read location index) count → Nests store (.array location) (count + 1)

/-- The arrays on the longest chain that starts at a value, for chains of at most
`bound` arrays. -/
def heightUpTo (store : Store) : (bound : Nat) → Value → Nat
  | bound + 1, .array location =>
      ((store.slots location).toList.map fun entry => heightUpTo store bound entry.2).foldr max 0 + 1
  | _, _ => 0

/-- The arrays on the longest chain that starts at a value.  No chain is longer than
the store. -/
def height (store : Store) (value : Value) : Nat :=
  store.heightUpTo store.cells.size value

theorem foldr_max_spec (heights : List Nat) :
    (∀ height ∈ heights, height ≤ heights.foldr max 0) ∧
      (heights.foldr max 0 = 0 ∨ heights.foldr max 0 ∈ heights) := by
  induction heights with
  | nil => exact ⟨nofun, .inl rfl⟩
  | cons height rest inductionHypothesis =>
      obtain ⟨above, attained⟩ := inductionHypothesis
      rw [List.foldr_cons]
      refine ⟨fun other member => ?_, .inr ?_⟩
      · rcases List.mem_cons.mp member with rfl | member
        · exact Nat.le_max_left _ _
        · exact Nat.le_trans (above other member) (Nat.le_max_right _ _)
      · rcases Nat.le_total (rest.foldr max 0) height with below | below
        · rw [Nat.max_eq_left below]
          exact List.mem_cons_self
        · rw [Nat.max_eq_right below]
          rcases attained with isZero | member
          · have alsoZero : height = 0 := by omega
            rw [isZero, alsoZero]
            exact List.mem_cons_self
          · exact List.mem_cons_of_mem _ member

theorem mem_toList_slots {location index : Nat} {value : Value} :
    (index, value) ∈ (store.slots location).toList ↔
      (store.slots location)[index]? = some value :=
  Std.ExtTreeMap.mem_toList_iff_getElem?_eq_some

theorem read_of_found {location index : Nat} {value : Value}
    (found : (store.slots location)[index]? = some value) : store.read location index = value := by
  rw [read, Std.ExtTreeMap.getD_eq_getD_getElem?, found]
  rfl

/-- The bounded height is the length of a chain. -/
theorem nests_heightUpTo (store : Store) (bound : Nat) (value : Value) :
    store.Nests value (store.heightUpTo bound value) := by
  induction bound generalizing value with
  | zero => exact .none value
  | succ bound inductionHypothesis =>
      cases value with
      | integer | function => exact .none _
      | array location =>
          rw [heightUpTo]
          rcases (foldr_max_spec ((store.slots location).toList.map fun entry =>
            store.heightUpTo bound entry.2)).2 with isZero | member
          · rw [isZero]
            exact .array location 0 (.none _)
          · obtain ⟨⟨index, held⟩, isEntry, isHeight⟩ := List.mem_map.mp member
            rw [← isHeight]
            have isRead := read_of_found (mem_toList_slots.mp isEntry)
            apply Nests.array location index
            rw [isRead]
            exact inductionHypothesis held

/-- No chain within the bound is longer. -/
theorem Nests.le_heightUpTo {value : Value} {count : Nat} (nests : store.Nests value count)
    {bound : Nat} (within : count ≤ bound) : count ≤ store.heightUpTo bound value := by
  induction nests generalizing bound with
  | none => exact Nat.zero_le _
  | array location index nests inductionHypothesis =>
      cases bound with
      | zero => omega
      | succ bound =>
          rw [heightUpTo]
          have inner := inductionHypothesis (Nat.le_of_succ_le_succ within)
          cases found : (store.slots location)[index]? with
          | none =>
              have isZero : store.read location index = .integer 0 := by
                rw [read, Std.ExtTreeMap.getD_eq_getD_getElem?, found]
                rfl
              rw [isZero] at nests
              cases nests
              omega
          | some held =>
              have isRead := read_of_found found
              rw [isRead] at inner
              have below := (foldr_max_spec ((store.slots location).toList.map fun entry =>
                store.heightUpTo bound entry.2)).1 _
                (List.mem_map_of_mem (mem_toList_slots.mpr found))
              exact Nat.succ_le_succ (Nat.le_trans inner below)

/-- Labels grow along a chain, so it has no more arrays than there are from its first
label on. -/
theorem Labelled.nests_le_countFrom (labelled : store.Labelled deepest) {location level : Nat}
    (isLevel : store.level? location = some level) {count : Nat}
    (nests : store.Nests (.array location) count) : count ≤ store.countFrom level := by
  induction count generalizing location level with
  | zero => exact Nat.zero_le _
  | succ count inductionHypothesis =>
      have fewer := countFrom_succ_lt isLevel
      cases nests with
      | array _ index nests =>
          cases held : store.read location index with
          | integer | function =>
              rw [held] at nests
              cases nests
              omega
          | array inner =>
              rw [held] at nests
              obtain ⟨holderLevel, isHolder, innerLevel⟩ :=
                labelled.level_of_holds (holds_of_read held)
              rw [isLevel] at isHolder
              cases isHolder
              have bound := inductionHypothesis innerLevel nests
              omega

/-- The height of a value is the length of its longest chain of arrays. -/
theorem Labelled.isGreatest_height (labelled : store.Labelled deepest) {value : Value}
    (has : store.Has value) :
    IsGreatest {count | store.Nests value count} (store.height value) := by
  refine ⟨store.nests_heightUpTo _ value, fun count nests => ?_⟩
  apply Nests.le_heightUpTo nests
  cases value with
  | integer | function =>
      cases nests
      exact Nat.zero_le _
  | array location =>
      obtain ⟨level, isLevel⟩ := exists_level?_of_lt (has location rfl)
      exact Nat.le_trans (labelled.nests_le_countFrom isLevel nests) (store.countFrom_le_size level)

/-! ## Copying array by array -/

/-- Each of some entries with different indexes is copied on its own, in a store that
copying the entries before it extended. -/
theorem exists_copy_of_copyEntries {room : Nat} {entries : List (Nat × Value)}
    (distinct : entries.Pairwise fun entry other => entry.1 ≠ other.1) {slots filled : Slots}
    (success : copyEntries (copyInRoom room) slots entries before = .ok filled after) :
    (∀ index, (∀ entry ∈ entries, entry.1 ≠ index) → filled[index]? = slots[index]?) ∧
      ∀ {index : Nat} {value : Value}, (index, value) ∈ entries →
        ∃ middle copy later, Extends before middle ∧ copyInRoom room value middle = .ok copy later ∧
          Extends later after ∧ filled[index]? = some copy := by
  induction entries generalizing slots before with
  | nil =>
      cases success
      exact ⟨fun _ _ => rfl, nofun⟩
  | cons entry rest inductionHypothesis =>
      obtain ⟨stored, middle, copied, success⟩ := copyEntries_cons_eq_ok_iff.mp success
      rw [List.pairwise_cons] at distinct
      have first := extends_of_copyInRoom copied
      obtain ⟨others, copies⟩ := inductionHypothesis distinct.2 success
      have afterwards : Extends middle after :=
        ((copyingExtends middle).copyEntries
          (fun known _ copied => ⟨known.trans (extends_of_copyInRoom copied), trivial⟩)
          (.refl middle) (fun _ _ => trivial) (fun _ => trivial) success).1
      refine ⟨fun index absent => ?_, fun {index value} member => ?_⟩
      · rw [List.forall_mem_cons] at absent
        rw [others index absent.2, getElem?_insert_slots, if_neg absent.1]
      · rcases List.mem_cons.mp member with rfl | member
        · refine ⟨before, stored, middle, .refl before, copied, afterwards, ?_⟩
          rw [others index fun other isOther => (distinct.1 other isOther).symm,
            getElem?_insert_slots, if_pos rfl]
        · obtain ⟨start, copy, later, known, copied, later', isFilled⟩ := copies member
          exact ⟨start, copy, later, first.trans known, copied, later', isFilled⟩

/-- Copying an array copies what it reads as at each index. -/
theorem exists_copies_of_array {room location : Nat} {copy : Value}
    (copied : copyInRoom room (.array location) before = .ok copy after) :
    ∃ less target, room = less + 1 ∧ copy = .array target ∧ target < after.cells.size ∧
      ∀ index, ∃ middle later, Extends before middle ∧
        copyInRoom less (before.read location index) middle =
          .ok (after.read target index) later ∧ Extends later after := by
  obtain ⟨less, slots, made, rfl, filled, rfl, rfl⟩ := copyInRoom_array_eq_ok copied
  have distinct : (before.slots location).toList.Pairwise fun entry other => entry.1 ≠ other.1 :=
    (before.slots location).distinct_keys_toList.imp fun differ same =>
      differ (Std.LawfulEqCmp.compare_eq_iff_eq.mpr same)
  obtain ⟨others, copies⟩ := exists_copy_of_copyEntries distinct filled
  have pushed : Extends made ⟨made.cells.push ⟨maxArrayNesting - less, slots⟩⟩ :=
    extends_allocate _ _
  refine ⟨less, made.cells.size, rfl, rfl, by simp, fun index => ?_⟩
  have isSlot : Store.read ⟨made.cells.push ⟨maxArrayNesting - less, slots⟩⟩ made.cells.size index =
      slots.getD index (.integer 0) := by
    rw [read, slots_push, if_pos rfl]
  rw [isSlot, read, Std.ExtTreeMap.getD_eq_getD_getElem?, Std.ExtTreeMap.getD_eq_getD_getElem?]
  cases found : (before.slots location)[index]? with
  | none =>
      have absent : ∀ entry ∈ (before.slots location).toList, entry.1 ≠ index := by
        rintro ⟨other, value⟩ member rfl
        rw [mem_toList_slots, found] at member
        cases member
      rw [others index absent, Std.ExtTreeMap.getElem?_empty]
      refine ⟨before, before, .refl before, copyInRoom_of_not_array (by simp), ?_⟩
      exact extends_of_copyInRoom copied
  | some value =>
      obtain ⟨middle, copy, later, known, copied, rest, isFilled⟩ :=
        copies (mem_toList_slots.mpr found)
      rw [isFilled]
      exact ⟨middle, later, known, copied, rest.trans pushed⟩

theorem Extends.read_eq (known : Extends older newer) {location : Nat}
    (inside : location < older.cells.size) (index : Nat) :
    newer.read location index = older.read location index := by
  rw [read, read, known.slots_eq inside]

/-- A value that was copied into some room has no chain of arrays longer than that. -/
theorem Labelled.nests_le_of_copyInRoom (labelled : store.Labelled deepest) {room : Nat}
    {value copy : Value} (has : store.Has value) (known : Extends store before)
    (copied : copyInRoom room value before = .ok copy after) {count : Nat}
    (nests : store.Nests value count) : count ≤ room := by
  induction nests generalizing room copy before after with
  | none => exact Nat.zero_le _
  | array location index _ inductionHypothesis =>
      obtain ⟨less, target, rfl, rfl, _, copies⟩ := exists_copies_of_array copied
      obtain ⟨middle, later, extended, copied, _⟩ := copies index
      rw [known.read_eq (has location rfl)] at copied
      exact Nat.succ_le_succ (inductionHypothesis (labelled.has_read location index)
        (known.trans extended) copied)

/-- Entries that are not copied fail at one of them. -/
theorem exists_failure_of_copyEntries {room : Nat} {entries : List (Nat × Value)} {slots : Slots}
    {error : RunError}
    (failed : copyEntries (copyInRoom room) slots entries before = .error error after) :
    ∃ entry ∈ entries, ∃ middle later, Extends before middle ∧
      copyInRoom room entry.2 middle = .error error later := by
  induction entries generalizing slots before with
  | nil => cases failed
  | cons entry rest inductionHypothesis =>
      rcases bind_eq_error_iff.mp failed with failed | ⟨stored, middle, copied, failed⟩
      · exact ⟨entry, List.mem_cons_self, before, after, .refl before, failed⟩
      · obtain ⟨other, member, start, later, known, failed⟩ := inductionHypothesis failed
        exact ⟨other, List.mem_cons_of_mem _ member, start, later,
          (extends_of_copyInRoom copied).trans known, failed⟩

/-- Copying fails for one reason only: a chain of arrays that is longer than the
room. -/
theorem Labelled.nests_of_copyInRoom_error (labelled : store.Labelled deepest) {room : Nat}
    {value : Value} {error : RunError} (has : store.Has value) (known : Extends store before)
    (failed : copyInRoom room value before = .error error after) :
    error = .arrayNestingExceeded ∧ store.Nests value (room + 1) := by
  induction room generalizing value before after with
  | zero =>
      cases value with
      | integer | function => cases failed
      | array location =>
          cases failed
          exact ⟨rfl, .array location 0 (.none _)⟩
  | succ room inductionHypothesis =>
      cases value with
      | integer | function => cases failed
      | array location =>
          rcases bind_eq_error_iff.mp failed with failed | ⟨_, _, found, failed⟩
          · cases failed
          cases found
          rcases bind_eq_error_iff.mp failed with failed | ⟨_, _, _, made⟩
          · obtain ⟨⟨index, held⟩, member, middle, later, extended, failed⟩ :=
              exists_failure_of_copyEntries failed
            rw [mem_toList_slots, known.slots_eq (has location rfl)] at member
            obtain ⟨isError, nests⟩ := inductionHypothesis (labelled.has_of_found member)
              (known.trans extended) failed
            refine ⟨isError, .array location index ?_⟩
            rw [read_of_found member]
            exact nests
          · cases made

/-! ## Paths -/

/-- What stands at a path of indexes into a value.  Only arrays are read from. -/
def at? (store : Store) : Value → List Nat → Option Value
  | value, [] => some value
  | .array location, index :: path => at? store (store.read location index) path
  | _, _ :: _ => none

/-- Whether values are the same, where any two arrays count as the same. -/
inductive SameKind : Value → Value → Prop where
  | integer (number : Int64) : SameKind (.integer number) (.integer number)
  | array (left right : Nat) : SameKind (.array left) (.array right)
  | function (declaration : FunctionDeclaration) :
      SameKind (.function declaration) (.function declaration)

/-- A copy and what it was made of read alike at every path. -/
theorem Labelled.at?_of_copyInRoom (labelled : store.Labelled deepest) {room : Nat}
    {value copy : Value} (has : store.Has value) (known : Extends store before)
    (copied : copyInRoom room value before = .ok copy after) (extended : Extends after newer)
    (path : List Nat) : Option.Rel SameKind (store.at? value path) (newer.at? copy path) := by
  induction path generalizing room value copy before after with
  | nil =>
      cases value with
      | array location =>
          obtain ⟨_, target, _, rfl, _⟩ := exists_copies_of_array copied
          exact .some (.array location target)
      | integer number =>
          rw [copyInRoom_of_not_array (by simp)] at copied
          cases copied
          exact .some (.integer number)
      | function declaration =>
          rw [copyInRoom_of_not_array (by simp)] at copied
          cases copied
          exact .some (.function declaration)
  | cons index path inductionHypothesis =>
      cases value with
      | integer | function =>
          rw [copyInRoom_of_not_array (by simp)] at copied
          cases copied
          exact .none
      | array location =>
          obtain ⟨less, target, _, rfl, inside, copies⟩ := exists_copies_of_array copied
          obtain ⟨middle, later, between, copied, rest⟩ := copies index
          rw [known.read_eq (has location rfl)] at copied
          have alike := inductionHypothesis (labelled.has_read location index)
            (known.trans between) copied (rest.trans extended)
          rw [at?, at?, extended.read_eq inside]
          exact alike

/-- An array that stands at a path is labelled by the length of the path, and is
reachable. -/
theorem Labelled.level?_of_at? (labelled : store.Labelled deepest) {root level : Nat}
    (isLevel : store.level? root = some level) {path : List Nat} {location : Nat}
    (found : store.at? (.array root) path = some (.array location)) :
    store.Reachable root location ∧ store.level? location = some (level + path.length) := by
  induction path generalizing root level with
  | nil =>
      cases found
      exact ⟨.refl, isLevel⟩
  | cons index path inductionHypothesis =>
      rw [at?] at found
      cases held : store.read root index with
      | integer | function =>
          rw [held] at found
          cases path with
          | nil => cases found
          | cons => cases found
      | array inner =>
          rw [held] at found
          have holds := holds_of_read held
          obtain ⟨holderLevel, isHolder, innerLevel⟩ := labelled.level_of_holds holds
          rw [isLevel] at isHolder
          cases isHolder
          obtain ⟨reachable, isLevel⟩ := inductionHypothesis innerLevel found
          refine ⟨.head ⟨index, holds⟩ reachable, ?_⟩
          rw [isLevel, List.length_cons]
          exact congrArg some (by omega)

end Store

end Scriptlet
