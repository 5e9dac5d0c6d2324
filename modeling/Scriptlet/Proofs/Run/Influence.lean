import Mathlib.Data.List.Sort
import Scriptlet.Proofs.Run.Alike
import Scriptlet.Proofs.Run.Returns

/-!
Contract: what of its initial state a run depends on.

Owns:
- loading states whose values have the same normal forms makes machines alike;
- zeros at the ends of the lists of the initial state make no difference to a run;
- a variable that a program does not mention makes no difference to a run either,
  and comes out in normal form.

The entries of a state are loaded in the order of their names.  So an entry that is
added moves the arrays of the entries after it.
-/

namespace Scriptlet

open Store StateValue

/-! ## Loading -/

namespace Machine

/-- Loads entries over some bindings and a store. -/
def loadEntries (entries : List (String × StateValue)) (start : Bindings × Store) :
    Bindings × Store :=
  entries.foldl (fun loaded entry =>
    (loaded.1.insert entry.1 (loaded.2.load 1 entry.2).1, (loaded.2.load 1 entry.2).2)) start

theorem loadGlobals_eq (initial : State) :
    loadGlobals initial = loadEntries initial.toList (∅, Store.empty) := by
  rw [loadGlobals, Std.ExtTreeMap.foldl_eq_foldl_toList]
  rfl

theorem loadEntries_append (entries others : List (String × StateValue))
    (start : Bindings × Store) :
    loadEntries (entries ++ others) start = loadEntries others (loadEntries entries start) :=
  List.foldl_append

theorem extends_loadEntries (entries : List (String × StateValue)) (start : Bindings × Store) :
    Store.Extends start.2 (loadEntries entries start).2 := by
  induction entries generalizing start with
  | nil => exact .refl start.2
  | cons entry rest inductionHypothesis =>
      exact (extends_load start.2 1 entry.2).trans (inductionHypothesis
        (start.1.insert entry.1 (start.2.load 1 entry.2).1, (start.2.load 1 entry.2).2))

end Machine

namespace Likeness

variable {likeness : Likeness}

/-- Bindings and stores that are alike, while no call is active. -/
def LoadedAlike (likeness : Likeness) (first second : Bindings × Store) : Prop :=
  Store.Alike likeness.matching first.2 second.2 ∧
    likeness.ScopesAlike (.ofGlobals first.1) (.ofGlobals second.1)

/-- Entries of the same allowed names with the same normal forms are loaded alike. -/
theorem LoadedAlike.loadEntries {first second : Bindings × Store}
    (alike : likeness.LoadedAlike first second) {entries others : List (String × StateValue)}
    (same : List.Forall₂ (fun entry other => entry.1 = other.1 ∧ entry.2.norm = other.2.norm)
      entries others)
    (allowed : ∀ entry ∈ entries, likeness.Names entry.1) :
    likeness.LoadedAlike (Machine.loadEntries entries first)
      (Machine.loadEntries others second) := by
  induction same generalizing first second with
  | nil => exact alike
  | @cons entry other rest others isSame _ inductionHypothesis =>
      obtain ⟨name, value⟩ := entry
      obtain ⟨otherName, otherValue⟩ := other
      obtain ⟨sameName, sameNorm⟩ := isSame
      cases sameName
      rw [List.forall_mem_cons] at allowed
      obtain ⟨storeAlike, matched⟩ := alike.1.load 1 sameNorm
      exact inductionHypothesis ⟨storeAlike, alike.2.insertGlobal allowed.1 matched⟩ allowed.2

/-- Runs against states that are loaded alike start in machines that are alike. -/
theorem together_ofState {settings : Settings} {initial other : State}
    (shallow : initial.nesting ≤ likeness.deepest)
    (alike : likeness.LoadedAlike (Machine.loadGlobals initial) (Machine.loadGlobals other)) :
    (likeness.pairing settings).Together (Machine.ofState initial) (Machine.ofState other) :=
  ⟨Machine.sound_ofState shallow, alike.1, alike.2, rfl, rfl, rfl⟩

/-! ## Zeros at the ends of lists -/

/-- Runs with the same arrays, of which all names may be used. -/
def same (deepest : Nat) : Likeness where
  matching := {
    Locations := Eq
    Functions _ := True
    hidden := Store.empty
    left_unique matched other := matched.trans other.symm
    right_unique matched other := matched.symm.trans other }
  Names _ := True
  hidden := ∅
  deepest := max maxArrayNesting deepest
  deep := Nat.le_max_left _ _
  returnName_allowed := trivial
  function_iff := ⟨fun _ => ⟨fun _ _ => trivial, fun _ _ => trivial⟩, fun _ => trivial⟩

theorem same_loadedAlike_empty (deepest : Nat) :
    (same deepest).LoadedAlike (∅, Store.empty) (∅, Store.empty) := by
  refine ⟨⟨?_, ?_, fun _ => rfl, Nat.le_refl _, ?_⟩, ⟨fun name _ => ?_, ?_, .nil⟩⟩
  · rintro location _ rfl
    rfl
  · rintro location _ rfl index
    rw [read_of_size_le (Nat.zero_le location)]
    exact .integer 0
  · exact fun unmatched => absurd rfl (unmatched _)
  · simp [Scopes.ofGlobals]
  · exact fun name notAllowed => absurd trivial notAllowed

end Likeness

/-- States of the same names with the same normal forms list the same names in the
same order. -/
theorem State.forall₂_toList {first second : State}
    (same : ∀ name : String, first[name]?.map norm = second[name]?.map norm) :
    List.Forall₂ (fun entry other : String × StateValue =>
      entry.1 = other.1 ∧ entry.2.norm = other.2.norm) first.toList second.toList := by
  have sameMap : (first.map fun _ => norm) = second.map fun _ => norm := by
    apply Std.ExtTreeMap.ext_getElem?
    intro name
    rw [Std.ExtTreeMap.getElem?_map, Std.ExtTreeMap.getElem?_map]
    exact same name
  have sameList := congrArg Std.ExtTreeMap.toList sameMap
  rw [Std.ExtTreeMap.toList_map, Std.ExtTreeMap.toList_map, ← List.forall₂_eq_eq_eq,
    List.forall₂_map_left_iff, List.forall₂_map_right_iff] at sameList
  exact sameList.imp fun entry other isSame => Prod.mk.inj isSame

namespace Program

/-- Runs against states of the same names, whose values have the same normal forms, are
the same. -/
theorem runWithFuel_eq_of_norms (program : Program) (limits : Limits) (random : RandomSource)
    {first second : State}
    (same : ∀ name : String, first[name]?.map norm = second[name]?.map norm) (fuel : Nat) :
    program.runWithFuel fuel first limits random =
      program.runWithFuel fuel second limits random := by
  have loaded : (Likeness.same first.nesting).LoadedAlike (Machine.loadGlobals first)
      (Machine.loadGlobals second) := by
    rw [Machine.loadGlobals_eq, Machine.loadGlobals_eq]
    exact (Likeness.same_loadedAlike_empty _).loadEntries (State.forall₂_toList same)
      fun _ _ => trivial
  have together : ((Likeness.same first.nesting).pairing
      (program.settings limits random)).Together (Machine.ofState first)
      (Machine.ofState second) :=
    Likeness.together_ofState (Nat.le_max_right _ _) loaded
  have changed := (Likeness.same first.nesting).runWithFuel_eq (fun _ _ => trivial) together id
    (fun together _ => Std.ExtTreeMap.ext_getElem? fun name =>
      (Likeness.getElem?_globalState together trivial).symm) fuel
  rw [changed, Report.mapState_id]

/-- Zeros at the ends of lists of the initial state are not observable: runs of a
program against two states of the same names, whose values have the same normal
forms, end with the same state or the same failure, after the same steps, draws and
calls. -/
theorem run_eq_of_norm_eq (program : Program) (limits : Limits) (random : RandomSource)
    {first second : State}
    (same : ∀ name : String, first[name]?.map norm = second[name]?.map norm) :
    program.run first limits random = program.run second limits random ∧
      ∀ fuel, program.runWithFuel fuel first limits random =
        program.runWithFuel fuel second limits random := by
  have withFuel := program.runWithFuel_eq_of_norms limits random same
  exact ⟨withFuel limits.fuel, withFuel⟩

/-- Divides by whether a list of the initial state differs from one of its own. -/
def dividesByDifference : Program where
  features := FeatureSet.all
  body := [.assign "b" (.binary .divide (.integer 1)
    (.binary .isNot (.name "a") (.array [.integer 1])))]

theorem run_eq_of_norm_eq_dividesByDifference :
    let padded := (∅ : State).insert "a" (.list [.integer 1, .integer 0])
    let plain := (∅ : State).insert "a" (.list [.integer 1])
    padded ≠ plain ∧
      dividesByDifference.run padded Limits.default (fun _ => 0) =
        dividesByDifference.run plain Limits.default (fun _ => 0) ∧
      (dividesByDifference.run padded Limits.default (fun _ => 0)).ending =
        .failed .divisionByZero := by
  have same : ∀ name : String,
      ((∅ : State).insert "a" (.list [.integer 1, .integer 0]))[name]?.map norm =
        ((∅ : State).insert "a" (.list [.integer 1]))[name]?.map norm := by
    intro name
    rw [Std.ExtTreeMap.getElem?_insert, Std.ExtTreeMap.getElem?_insert]
    split <;> rfl
  have runs := (run_eq_of_norm_eq dividesByDifference Limits.default (fun _ => 0) same).1
  refine ⟨by decide +kernel, runs, ?_⟩
  rw [runs]
  decide +kernel

end Program

/-! ## Variables that are not mentioned -/

/-- Entries in the order of their names. -/
def State.Before (entry other : String × StateValue) : Prop :=
  compare entry.1 other.1 = .lt

instance : Std.Antisymm State.Before where
  antisymm _ _ before after := absurd after (Std.OrientedCmp.not_lt_of_lt before)

instance : Std.Irrefl State.Before where
  irrefl entry before := by simp [State.Before] at before

theorem State.mem_toList_insert {state : State} {name : String} (absent : name ∉ state)
    {value : StateValue} {entry : String × StateValue} :
    entry ∈ (state.insert name value).toList ↔ entry = (name, value) ∨ entry ∈ state.toList := by
  obtain ⟨other, found⟩ := entry
  rw [Std.ExtTreeMap.mem_toList_iff_getElem?_eq_some,
    Std.ExtTreeMap.mem_toList_iff_getElem?_eq_some, Std.ExtTreeMap.getElem?_insert,
    Prod.mk.injEq]
  simp only [Std.LawfulEqCmp.compare_eq_iff_eq]
  by_cases isName : name = other
  · subst isName
    rw [if_pos rfl, Std.ExtTreeMap.getElem?_eq_none absent]
    simp [eq_comm]
  · rw [if_neg isName]
    simp [Ne.symm isName]

/-- An entry of a new name stands between those of smaller and those of greater
names. -/
theorem State.exists_toList_insert {state : State} {name : String} (absent : name ∉ state)
    (value : StateValue) :
    ∃ (smaller : State) (greater : List (String × StateValue)),
      state.toList = smaller.toList ++ greater ∧
      (state.insert name value).toList = smaller.toList ++ (name, value) :: greater := by
  refine ⟨state.filter fun other _ => compare other name == .lt,
    state.toList.filter fun entry => compare name entry.1 == .lt, ?_⟩
  rw [Std.ExtTreeMap.toList_filter]
  have ordered : ∀ keep, (state.toList.filter keep).Pairwise Before :=
    fun keep => state.ordered_keys_toList.filter keep
  have apart : ∀ entry ∈ state.toList, compare entry.1 name = .lt ∨ compare name entry.1 = .lt := by
    rintro ⟨other, found⟩ member
    rw [Std.ExtTreeMap.mem_toList_iff_getElem?_eq_some] at member
    cases order : compare other name with
    | lt => exact .inl rfl
    | gt => exact .inr (Std.OrientedCmp.gt_iff_lt.mp order)
    | eq =>
        obtain rfl := Std.LawfulEqCmp.compare_eq_iff_eq.mp order
        exact absurd (Std.ExtTreeMap.mem_iff_isSome_getElem?.mpr (by rw [member]; rfl)) absent
  constructor
  · apply state.ordered_keys_toList.eq_of_mem_iff (r := Before)
    · rw [List.pairwise_append]
      refine ⟨ordered _, ordered _, fun entry isSmaller other isGreater => ?_⟩
      simp only [List.mem_filter, beq_iff_eq] at isSmaller isGreater
      exact Std.TransCmp.lt_trans isSmaller.2 isGreater.2
    · intro entry
      simp only [List.mem_append, List.mem_filter, beq_iff_eq]
      constructor
      · exact fun member => (apart entry member).imp (⟨member, ·⟩) (⟨member, ·⟩)
      · rintro (isSmaller | isGreater)
        · exact isSmaller.1
        · exact isGreater.1
  · apply (state.insert name value).ordered_keys_toList.eq_of_mem_iff (r := Before)
    · rw [List.pairwise_append, List.pairwise_cons]
      refine ⟨ordered _, ⟨fun other isGreater => ?_, ordered _⟩, fun entry isSmaller other => ?_⟩
      · simp only [List.mem_filter, beq_iff_eq] at isGreater
        exact isGreater.2
      · simp only [List.mem_filter, beq_iff_eq, List.mem_cons] at isSmaller ⊢
        rintro (rfl | isGreater)
        · exact isSmaller.2
        · exact Std.TransCmp.lt_trans isSmaller.2 isGreater.2
    · intro entry
      rw [mem_toList_insert absent]
      simp only [List.mem_append, List.mem_cons, List.mem_filter, beq_iff_eq]
      constructor
      · rintro (isNew | member)
        · exact .inr (.inl isNew)
        · exact (apart entry member).imp (⟨member, ·⟩) (.inr ⟨member, ·⟩)
      · rintro (isSmaller | isNew | isGreater)
        · exact .inr isSmaller.1
        · exact .inl isNew
        · exact .inr isGreater.1

namespace Likeness

section

variable (globals : Bindings) (store : Store) (name : String) (notReturn : name ≠ returnName)
  (value : StateValue) (deepest : Nat)

/-- Runs of which the second has a variable more, which is loaded after some globals:
no run uses it, and the arrays that are made after it are moved. -/
def extended : Likeness where
  matching := {
    Locations left right := right = if left < store.cells.size then left
      else left + ((store.load 1 value).2.cells.size - store.cells.size)
    Functions declaration := (∀ parameter ∈ declaration.parameters, parameter ≠ name) ∧
      (Node.block declaration.body).UsesOnly (· ≠ name)
    hidden := (store.load 1 value).2
    left_unique matched other := by
      split at matched <;> split at other <;> omega
    right_unique matched other := matched.trans other.symm }
  Names other := other ≠ name
  hidden := globals.insert name (store.load 1 value).1
  deepest := max maxArrayNesting deepest
  deep := Nat.le_max_left _ _
  returnName_allowed := notReturn.symm
  function_iff := Iff.rfl

variable {globals store name value deepest}

/-- Data that was there before the variable matches itself. -/
theorem extended_values_self {bound : Value} (isData : bound.IsData) (has : store.Has bound) :
    (extended globals store name notReturn value deepest).matching.Values bound bound := by
  cases bound with
  | integer number => exact .integer number
  | array location => exact .array (if_pos (has location rfl)).symm
  | function => exact isData.elim

variable (deepest) in
/-- Loading the variable on one side leaves what was loaded before it alike. -/
theorem extended_loadedAlike {shallow : Nat} (labelled : store.Labelled shallow)
    (nested : value.nesting ≤ shallow) (holdsData : store.HoldsData)
    (bindsData : ∀ {other : String} {bound : Value}, globals[other]? = some bound →
      bound.IsData ∧ store.Has bound)
    (absent : name ∉ globals) :
    (extended globals store name notReturn value deepest).LoadedAlike (globals, store)
      (globals.insert name (store.load 1 value).1, (store.load 1 value).2) := by
  have known := extends_load store 1 value
  have larger := known.size_le
  have moved : ∀ {location : Nat}, store.cells.size ≤ location →
      (store.load 1 value).2.cells.size ≤
        location + ((store.load 1 value).2.cells.size - store.cells.size) := by
    intro location outside
    omega
  obtain ⟨_, grows, _⟩ := labelled.load 1 value (by omega)
  refine ⟨⟨?_, ?_, fun count => ?_, larger, fun _ => rfl⟩, ⟨fun other different => ?_,
    fun other isName => ?_, .nil⟩⟩
  · rintro location _ rfl
    by_cases inside : location < store.cells.size
    · obtain ⟨level, isLevel⟩ := exists_level?_of_lt inside
      rw [if_pos inside, isLevel, grows.level_kept isLevel]
    · rw [if_neg inside, level?_eq_none_iff.mpr (Nat.le_of_not_lt inside),
        level?_eq_none_iff.mpr (moved (Nat.le_of_not_lt inside))]
  · rintro location _ rfl index
    by_cases inside : location < store.cells.size
    · rw [if_pos inside, Store.read, Store.read, known.slots_eq inside]
      exact extended_values_self notReturn (holdsData.read location index)
        (labelled.has_read location index)
    · rw [if_neg inside, read_of_size_le (Nat.le_of_not_lt inside),
        read_of_size_le (moved (Nat.le_of_not_lt inside))]
      exact .integer 0
  · show (store.load 1 value).2.cells.size + count =
      if store.cells.size + count < store.cells.size then store.cells.size + count
      else store.cells.size + count + ((store.load 1 value).2.cells.size - store.cells.size)
    rw [if_neg (by omega)]
    omega
  · simp only [Scopes.ofGlobals, Scopes.getElem?_insert_bindings,
      if_neg (Ne.symm different)]
    cases found : globals[other]? with
    | none => exact .none
    | some bound =>
        exact .some (extended_values_self notReturn (bindsData found).1 (bindsData found).2)
  · obtain rfl : other = name := not_not.mp isName
    exact ⟨Std.ExtTreeMap.getElem?_eq_none absent, rfl⟩

/-- The final state of the second run is that of the first one with the variable, in
normal form. -/
theorem extended_globalState {settings : Settings} {shallow : Nat} {first second : Machine}
    (labelled : store.Labelled shallow) (nested : value.nesting ≤ shallow)
    (together : ((extended globals store name notReturn value deepest).pairing settings).Together
      first second)
    (grown : store.cells.size ≤ first.store.cells.size) :
    second.globalState = first.globalState.insert name value.norm := by
  have alike := together.machines.store
  have isSize : second.store.cells.size = if first.store.cells.size < store.cells.size then
      first.store.cells.size else first.store.cells.size +
        ((store.load 1 value).2.cells.size - store.cells.size) := alike.next 0
  rw [if_neg (Nat.not_lt.mpr grown)] at isSize
  -- No array of the first run matches one that was made for the variable.
  have kept : ∀ {location : Nat}, store.cells.size ≤ location →
      location < (store.load 1 value).2.cells.size →
      second.store.slots location = (store.load 1 value).2.slots location := by
    intro location isNew isOld
    apply alike.hidden
    intro other matched
    have isMoved : location = if other < store.cells.size then other else
      other + ((store.load 1 value).2.cells.size - store.cells.size) := matched
    split at isMoved <;> omega
  have isVariable : second.store.stateValue (store.load 1 value).1 = some value.norm :=
    labelled.stateValue_of_kept 1 value (by omega) (by omega) kept
  apply Std.ExtTreeMap.ext_getElem?
  intro other
  rw [Std.ExtTreeMap.getElem?_insert]
  simp only [Std.LawfulEqCmp.compare_eq_iff_eq]
  by_cases isName : name = other
  · subst isName
    have bound := (together.machines.scopes.hidden name (not_not.mpr rfl)).2
    rw [if_pos rfl, Machine.globalState, Std.ExtTreeMap.getElem?_filterMap', bound]
    show ((globals.insert name (store.load 1 value).1)[name]?).bind _ = _
    rw [Std.ExtTreeMap.getElem?_insert_self]
    exact isVariable
  · rw [if_neg isName]
    exact (getElem?_globalState together (Ne.symm isName)).symm

end

/-- A state and the state that is extended by a variable are loaded alike, up to the
variable. -/
theorem exists_extended_loadedAlike {initial : State} {name : String}
    (notReturn : name ≠ returnName) (absent : name ∉ initial) (value : StateValue) :
    ∃ (globals : Bindings) (store : Store) (shallow : Nat),
      store.Labelled shallow ∧ value.nesting ≤ shallow ∧
      store.cells.size ≤ (Machine.ofState initial).store.cells.size ∧
      (extended globals store name notReturn value initial.nesting).LoadedAlike
        (Machine.loadGlobals initial) (Machine.loadGlobals (initial.insert name value)) := by
  obtain ⟨smaller, greater, isList, isExtended⟩ := State.exists_toList_insert absent value
  have isInitial : ∀ entry ∈ initial.toList, entry.1 ≠ name := by
    rintro ⟨other, found⟩ member rfl
    rw [Std.ExtTreeMap.mem_toList_iff_getElem?_eq_some] at member
    exact absent (Std.ExtTreeMap.mem_iff_isSome_getElem?.mpr (by rw [member]; rfl))
  rw [isList] at isInitial
  have start := Machine.sound_ofState (Nat.le_max_left smaller.nesting value.nesting)
  obtain ⟨bindsData, holdsData⟩ := Machine.isData_loadGlobals smaller
  have notBound : name ∉ (Machine.loadGlobals smaller).1 := by
    intro bound
    have member := Machine.mem_globals_ofState.mp bound
    rw [← Std.ExtTreeMap.mem_keys, ← Std.ExtTreeMap.map_fst_toList_eq_keys, List.mem_map]
      at member
    obtain ⟨entry, member, isName⟩ := member
    exact isInitial entry (List.mem_append_left _ member) isName
  refine ⟨(Machine.loadGlobals smaller).1, (Machine.loadGlobals smaller).2, _, start.labelled,
    Nat.le_max_right _ _, ?_, ?_⟩
  · show _ ≤ (Machine.loadGlobals initial).2.cells.size
    rw [Machine.loadGlobals_eq initial, isList, Machine.loadEntries_append,
      ← Machine.loadGlobals_eq smaller]
    exact (Machine.extends_loadEntries greater _).size_le
  · rw [Machine.loadGlobals_eq initial, Machine.loadGlobals_eq (initial.insert name value), isList,
      isExtended, Machine.loadEntries_append, Machine.loadEntries_append,
      ← Machine.loadGlobals_eq smaller]
    have alike := extended_loadedAlike notReturn initial.nesting start.labelled
      (Nat.le_max_right _ _) holdsData
      (fun found => ⟨bindsData found, start.has_of_binds (.inl ⟨_, found⟩)⟩) notBound
    exact alike.loadEntries (List.forall₂_same.mpr fun entry _ => ⟨rfl, rfl⟩)
      fun entry member => isInitial entry (List.mem_append_right _ member)

end Likeness

namespace Program

/-- A variable that a program does not mention has no influence and passes through:
against a state that is extended by it, a run counts and logs the same and fails the
same, or ends with the same state extended by the variable in normal form. -/
theorem run_insert_of_not_occurs (program : Program) (limits : Limits) (random : RandomSource)
    {initial : State} {name : String} (notReturn : name ≠ returnName) (absent : name ∉ initial)
    (unused : ¬ (Node.block program.body).Occurs name) (value : StateValue) :
    program.run (initial.insert name value) limits random =
        (program.run initial limits random).mapState (·.insert name value.norm) ∧
      ∀ fuel, program.runWithFuel fuel (initial.insert name value) limits random =
        (program.runWithFuel fuel initial limits random).mapState (·.insert name value.norm) := by
  obtain ⟨globals, store, shallow, labelled, nested, larger, loaded⟩ :=
    Likeness.exists_extended_loadedAlike notReturn absent value
  have uses : (Node.block program.body).UsesOnly (· ≠ name) := by
    rintro other occurs rfl
    exact unused occurs
  have withFuel : ∀ fuel, program.runWithFuel fuel (initial.insert name value) limits random =
      (program.runWithFuel fuel initial limits random).mapState (·.insert name value.norm) := by
    refine Likeness.runWithFuel_eq _ uses
      (Likeness.together_ofState (Nat.le_max_right _ _) loaded) _ fun together grows => ?_
    exact Likeness.extended_globalState notReturn labelled nested together
      (Nat.le_trans larger grows.size_le)
  exact ⟨withFuel limits.fuel, withFuel⟩

/-- Binds one name, and mentions no other. -/
def bindsOne : Program where
  features := FeatureSet.all
  body := [.assign "a" (.integer 1)]

theorem run_insert_of_not_occurs_bindsOne :
    bindsOne.run ((∅ : State).insert "b" (.list [.integer 2, .integer 0])) Limits.default
        (fun _ => 0) =
      (bindsOne.run ∅ Limits.default (fun _ => 0)).mapState
        (·.insert "b" (.list [.integer 2])) := by
  have unused : ¬ (Node.block bindsOne.body).Occurs "b" := by
    intro occurs
    rcases occurs.cases with spells | ⟨_, isPart, occurs⟩
    · exact spells
    · cases isPart with
      | statement member =>
          obtain rfl := List.mem_singleton.mp member
          rcases occurs.cases with spells | ⟨_, isPart, occurs⟩
          · have isName : "a" = "b" := spells
            exact absurd isName (by decide)
          · cases isPart with
            | assigned =>
                rcases occurs.cases with spells | ⟨_, isPart, _⟩
                · exact spells
                · cases isPart
  exact (run_insert_of_not_occurs bindsOne Limits.default (fun _ => 0) (by decide) (by simp)
    unused (.list [.integer 2, .integer 0])).1

end Program

end Scriptlet
