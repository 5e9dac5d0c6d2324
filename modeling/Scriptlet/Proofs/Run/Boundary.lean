import Scriptlet.Proofs.Run.Influence

/-!
Contract: the values that a run exchanges with its host are in normal form.

Owns:
- whatever is read back from a store is in normal form, whichever arrays are in it;
- the machine that a run starts in reads back as the state it was made of, in
  normal form;
- a run ends with a state in normal form, which the empty program gives back as it
  is.
-/

namespace Scriptlet

open StateValue

namespace Store

/-- What is read back from a store is in normal form. -/
theorem normal_of_stateValueUpTo {store : Store} {height : Nat} {value : Value}
    {found : StateValue} (reads : store.stateValueUpTo height value = some found) :
    found.Normal := by
  apply holds_of_stateValueUpTo normal_integer _ _ reads
  · exact normal_list_iff.mpr ⟨fun front => by simp, nofun⟩
  · exact fun trimmed _ normal => normal_list_iff.mpr ⟨trimmed, normal⟩

end Store

namespace Machine

theorem normal_of_globalState {machine : Machine} {name : String} {value : StateValue}
    (found : machine.globalState[name]? = some value) : value.Normal := by
  rw [globalState, Std.ExtTreeMap.getElem?_filterMap', Option.bind_eq_some_iff] at found
  obtain ⟨bound, _, reads⟩ := found
  exact Store.normal_of_stateValueUpTo reads

/-! ## The machine that a run starts in -/

/-- Loading entries binds no other names. -/
theorem getElem?_loadEntries_of_not_mem {entries : List (String × StateValue)} {name : String}
    (absent : ∀ entry ∈ entries, entry.1 ≠ name) (start : Bindings × Store) :
    (loadEntries entries start).1[name]? = start.1[name]? := by
  induction entries generalizing start with
  | nil => rfl
  | cons entry rest inductionHypothesis =>
      rw [List.forall_mem_cons] at absent
      refine (inductionHypothesis absent.2 _).trans ?_
      rw [Scopes.getElem?_insert_bindings, if_neg absent.1]

/-- Each of some entries is bound to what reads back as its normal form, after all of
them were loaded. -/
theorem stateValue_loadEntries {deepest : Nat} {entries : List (String × StateValue)}
    (distinct : entries.Pairwise fun entry other => entry.1 ≠ other.1)
    (shallow : ∀ entry ∈ entries, entry.2.nesting ≤ deepest) {start : Bindings × Store}
    (labelled : start.2.Labelled deepest) {name : String} {value : StateValue}
    (member : (name, value) ∈ entries) :
    (loadEntries entries start).1[name]?.bind (loadEntries entries start).2.stateValue =
      some value.norm := by
  induction entries generalizing start with
  | nil => cases member
  | cons entry rest inductionHypothesis =>
      rw [List.pairwise_cons] at distinct
      rw [List.forall_mem_cons] at shallow
      rcases List.mem_cons.mp member with rfl | member
      · have known := extends_loadEntries rest
          (start.1.insert name (start.2.load 1 value).1, (start.2.load 1 value).2)
        have isBound := getElem?_loadEntries_of_not_mem
          (fun other member => (distinct.1 other member).symm)
          (start.1.insert name (start.2.load 1 value).1, (start.2.load 1 value).2)
        rw [Std.ExtTreeMap.getElem?_insert_self] at isBound
        have isEntry := labelled.stateValue_of_kept 1 value
          (Nat.add_comm deepest 1 ▸ Nat.add_le_add_left shallow.1 1) known.size_le
          fun _ inside => known.slots_eq inside
        exact (congrArg (Option.bind · _) isBound).trans isEntry
      · obtain ⟨newLabelled, _, _⟩ := labelled.load 1 entry.2 (by omega)
        exact inductionHypothesis distinct.2 shallow.2 newLabelled member

/-- The machine that a run starts in reads back as its state in normal form. -/
theorem globalState_ofState (initial : State) :
    (ofState initial).globalState = initial.map fun _ => norm := by
  apply Std.ExtTreeMap.ext_getElem?
  intro name
  rw [globalState, Std.ExtTreeMap.getElem?_filterMap', Std.ExtTreeMap.getElem?_map]
  cases found : initial[name]? with
  | none =>
      have absent : name ∉ (ofState initial).scopes.globals := by
        rw [mem_globals_ofState, Std.ExtTreeMap.mem_iff_isSome_getElem?, found]
        exact Bool.false_ne_true
      rw [Std.ExtTreeMap.getElem?_eq_none absent]
      rfl
  | some value =>
      have distinct : initial.toList.Pairwise fun entry other => entry.1 ≠ other.1 :=
        initial.distinct_keys_toList.imp fun differ same =>
          differ (Std.LawfulEqCmp.compare_eq_iff_eq.mpr same)
      show (loadGlobals initial).1[name]?.bind (loadGlobals initial).2.stateValue = some value.norm
      rw [loadGlobals_eq]
      exact stateValue_loadEntries distinct (fun _ member => State.nesting_le_of_mem member)
        (Store.labelled_empty _) (Std.ExtTreeMap.mem_toList_iff_getElem?_eq_some.mpr found)

/-- A state in normal form is read back as it was. -/
theorem globalState_ofState_of_normal {initial : State}
    (normal : ∀ {name : String} {value : StateValue}, initial[name]? = some value →
      value.Normal) :
    (ofState initial).globalState = initial := by
  rw [globalState_ofState]
  apply Std.ExtTreeMap.ext_getElem?
  intro name
  rw [Std.ExtTreeMap.getElem?_map]
  cases found : initial[name]? with
  | none => rfl
  | some value => exact congrArg some (normal found).norm_eq

end Machine

/-! ## Runs -/

namespace Program

/-- The empty text is the program that does nothing. -/
theorem compile_empty (features : FeatureSet) : compile features "" = .ok ⟨features, []⟩ :=
  rfl

/-- The program that does nothing ends with its initial state in normal form. -/
theorem run_nil (features : FeatureSet) (initial : State) {limits : Limits}
    (allowed : limits.maxSteps ≠ some 0) (random : RandomSource) :
    (run ⟨features, []⟩ initial limits random).ending =
      .finished (Machine.ofState initial).globalState false := by
  obtain ⟨fuel, isFuel⟩ : ∃ fuel, limits.fuel = fuel + 1 := by
    unfold Limits.fuel
    split <;> exact ⟨_, rfl⟩
  have ticked : Run.tick (settings ⟨features, []⟩ limits random) (Machine.ofState initial) =
      .ok () { Machine.ofState initial with steps := 1 } := by
    cases limit : limits.maxSteps with
    | none => exact Run.tick_of_unbounded limit _
    | some budget =>
        have positive : ¬ budget < 1 := by
          rintro isZero
          rw [limit, Nat.lt_one_iff.mp isZero] at allowed
          exact allowed rfl
        rw [Run.tick_of_bounded limit]
        exact if_neg positive
  rw [run, isFuel, ending_eq_finished_iff]
  refine ⟨.proceed, { Machine.ofState initial with steps := 1 }, ?_, rfl, rfl⟩
  rw [execBlock, Run.bind_of_ok ticked]
  rfl

/-- A run ends with values in normal form. -/
theorem normal_of_finished {program : Program} {fuel : Nat} {initial : State} {limits : Limits}
    {random : RandomSource} {final : State} {returned : Bool}
    (finished : (program.runWithFuel fuel initial limits random).ending =
      .finished final returned) {name : String} {value : StateValue}
    (found : final[name]? = some value) : value.Normal := by
  obtain ⟨_, machine, _, rfl, _⟩ := ending_eq_finished_iff.mp finished
  exact Machine.normal_of_globalState found

/-- State values are in normal form where they cross into a run and out of it.  Loaded
and read back, a value becomes its normal form, which keeps integers, takes lists item
by item and drops the run of integer zeros at the end of each.  Taking it twice is
taking it once.  Whatever a run did, no list in the state it ends with, at any depth,
ends with the integer zero; so the empty program gives that state back. -/
theorem state_crosses_in_normal_form :
    (∀ value : StateValue,
      (Store.empty.load 1 value).2.stateValue (Store.empty.load 1 value).1 = some value.norm) ∧
    (∀ number, (integer number).norm = .integer number) ∧
    (∀ items, ∃ front count, items = front ++ List.replicate count (.integer 0) ∧
      front.getLast? ≠ some (.integer 0) ∧ (list items).norm = .list (front.map norm)) ∧
    (∀ value : StateValue, value.norm.norm = value.norm) ∧
    ∀ (program : Program) (fuel : Nat) (initial : State) (limits : Limits)
      (random : RandomSource) (final : State) (returned : Bool),
      (program.runWithFuel fuel initial limits random).ending = .finished final returned →
        (∀ (name : String) (value : StateValue), final[name]? = some value →
          ∀ items, Inside (.list items) value → items.getLast? ≠ some (.integer 0)) ∧
        ∀ features, ∃ empty, compile features "" = .ok empty ∧
          ∀ (limits : Limits) (random : RandomSource), limits.maxSteps ≠ some 0 →
            (empty.run final limits random).ending = .finished final false := by
  refine ⟨fun value => ?_, fun _ => rfl, exists_front_of_norm, fun value => ?_, ?_⟩
  · exact (Store.labelled_empty value.nesting).stateValue_of_kept 1 value (by omega)
      (Nat.le_refl _) fun _ _ => rfl
  · exact (normal_norm value).norm_eq
  · intro program fuel initial limits random final returned finished
    refine ⟨fun name value found => normal_of_finished finished found, fun features => ?_⟩
    refine ⟨_, compile_empty features, fun limits random allowed => ?_⟩
    rw [run_nil features final allowed random,
      Machine.globalState_ofState_of_normal (normal_of_finished finished)]

/-- Leaves zeros at the ends of arrays, some in slots that were set to something else
before, and empty arrays between them. -/
def leavesZeros : Program where
  features := FeatureSet.all
  body := [
    .assign "a" (.array [.array [.integer 0], .integer 0]),
    .store (.name "a") (.integer 3) (.array [.integer 2, .integer 0]),
    .store (.name "a") (.integer 5) (.integer 1),
    .store (.name "a") (.integer 5) (.integer 0)]

theorem state_crosses_in_normal_form_leavesZeros :
    let final := ((∅ : State).insert "a"
      (.list [.list [], .integer 0, .integer 0, .list [.integer 2]])).insert "b" (.list [.list []])
    (leavesZeros.runWithFuel 20 ((∅ : State).insert "b" (.list [.list [], .integer 0]))
      Limits.default fun _ => 0).ending = .finished final false ∧
    (run ⟨FeatureSet.all, []⟩ final Limits.default fun _ => 0).ending =
      .finished final false := by
  intro final
  have finished : (leavesZeros.runWithFuel 20
      ((∅ : State).insert "b" (.list [.list [], .integer 0])) Limits.default fun _ => 0).ending =
      .finished final false := by
    decide +kernel
  obtain ⟨empty, compiled, same⟩ :=
    (state_crosses_in_normal_form.2.2.2.2 _ _ _ _ _ _ _ finished).2 FeatureSet.all
  rw [compile_empty] at compiled
  cases compiled
  exact ⟨finished, same Limits.default (fun _ => 0) (by decide)⟩

end Program

end Scriptlet
