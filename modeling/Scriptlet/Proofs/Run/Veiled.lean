import Scriptlet.Proofs.Run.Influence

/-!
Contract: where the name of the draws is drawn at each read, what is stored under it
has no influence.

Owns:
- machines that are the same up to the data that the name is globally bound to;
- every evaluation keeps such machines so, and gives the same from both;
- arrays that nothing refers to make no difference either;
- runs against two states that differ in this name only.

The name can still be bound, also to a function, and be called.  A call that finds
data fails alike whatever the data is.  Lists of different sizes under the name move
the arrays that are loaded after them, so the runs are compared with one in which
the name is bound to zero and its list was never loaded.
-/

namespace Scriptlet

open Run

/-! ## Scopes -/

/-- Values of a name that cannot be told apart: the name of the draws may be bound to
different data. -/
def Value.SameUnder (name : String) (value other : Value) : Prop :=
  value = other ∨ name = randomName ∧ value.IsData ∧ other.IsData

/-- Other names have the same value. -/
theorem Value.SameUnder.eq_of_rel {name : String} {first second : Option Value}
    (same : Option.Rel (Value.SameUnder name) first second) (different : name ≠ randomName) :
    first = second := by
  cases same with
  | none => rfl
  | some sameValue =>
      rcases sameValue with isSame | ⟨isRandom, _⟩
      · rw [isSame]
      · exact absurd isRandom different

namespace Scopes

/-- Scopes that are the same up to the data that the name of the draws is globally
bound to. -/
structure SameButRandom (first second : Scopes) : Prop where
  globals : ∀ name : String,
    Option.Rel (Value.SameUnder name) first.globals[name]? second.globals[name]?
  frames : first.frames = second.frames

namespace SameButRandom

variable {first second : Scopes}

theorem depth_eq (same : first.SameButRandom second) : first.depth = second.depth :=
  congrArg List.length same.frames

theorem read (same : first.SameButRandom second) (name : String) :
    Option.Rel (Value.SameUnder name) (first.read name) (second.read name) := by
  rw [Scopes.read, Scopes.read, same.frames]
  cases readFrames name second.frames with
  | some value => exact .some (.inl rfl)
  | none => exact same.globals name

theorem mem_globals_iff (same : first.SameButRandom second) (name : String) :
    name ∈ first.globals ↔ name ∈ second.globals := by
  rw [Std.ExtTreeMap.mem_iff_isSome_getElem?, Std.ExtTreeMap.mem_iff_isSome_getElem?]
  rcases none_or_some_of_rel (same.globals name) with
    ⟨isNone, otherNone⟩ | ⟨value, other, isSome, otherSome, _⟩
  · rw [isNone, otherNone]
  · rw [isSome, otherSome]
    exact ⟨fun _ => rfl, fun _ => rfl⟩

theorem write (same : first.SameButRandom second) (name : String) (value : Value) :
    (first.write name value).SameButRandom (second.write name value) := by
  have sameKind := same.mem_globals_iff name
  obtain ⟨globals, frames⟩ := first
  obtain ⟨otherGlobals, otherFrames⟩ := second
  obtain rfl : frames = otherFrames := same.frames
  have asGlobal : SameButRandom ⟨globals.insert name value, frames⟩
      ⟨otherGlobals.insert name value, frames⟩ := by
    refine ⟨fun other => ?_, rfl⟩
    simp only [getElem?_insert_bindings]
    split
    · exact .some (.inl rfl)
    · exact same.globals other
  cases frames with
  | nil => exact asGlobal
  | cons frame outer =>
      simp only [Scopes.write]
      by_cases isGlobal : name ∈ globals
      · rw [if_pos isGlobal, if_pos (sameKind.mp isGlobal)]
        exact asGlobal
      · rw [if_neg isGlobal, if_neg fun otherGlobal => isGlobal (sameKind.mpr otherGlobal)]
        exact ⟨same.globals, rfl⟩

theorem writeAll (same : first.SameButRandom second) (bindings : List (String × Value)) :
    (first.writeAll bindings).SameButRandom (second.writeAll bindings) := by
  induction bindings generalizing first second with
  | nil => exact same
  | cons binding rest inductionHypothesis =>
      exact inductionHypothesis (same.write binding.1 binding.2)

theorem push (same : first.SameButRandom second) : first.push.SameButRandom second.push :=
  ⟨same.globals, congrArg (∅ :: ·) same.frames⟩

theorem pop? (same : first.SameButRandom second) :
    Option.Rel SameButRandom first.pop? second.pop? := by
  obtain ⟨globals, frames⟩ := first
  obtain ⟨otherGlobals, otherFrames⟩ := second
  obtain rfl : frames = otherFrames := same.frames
  cases frames with
  | nil => exact .none
  | cons own outer => exact .some ⟨same.globals, rfl⟩

end SameButRandom

end Scopes

/-! ## Steps -/

/-- Machines that are the same up to the data that the name of the draws is globally
bound to. -/
inductive Machine.SameButRandom : Machine → Machine → Prop where
  | intro {scopes other : Scopes} (same : scopes.SameButRandom other) (store : Store)
      (steps draws : Nat) (calls : Array CallEvent) :
      SameButRandom ⟨scopes, store, steps, draws, calls⟩ ⟨other, store, steps, draws, calls⟩

/-- Whether two steps end the same from machines that are the same up to that data,
in such machines again. -/
def EndsSame {α : Type} (left right : Run α) : Prop :=
  ∀ first second : Machine, first.SameButRandom second →
    Coupled (fun result after other otherAfter => result = other ∧ after.SameButRandom otherAfter)
      Machine.SameButRandom (left first) (right second)

section

variable {α β : Type}

theorem endsSame_pure (result : α) : EndsSame (pure result : Run α) (pure result) :=
  fun _ _ same => .ok ⟨rfl, same⟩

theorem endsSame_throw (halt : Halt) : EndsSame (throw halt : Run α) (throw halt) :=
  fun _ _ same => .error same

theorem EndsSame.bind {left right : Run α} {leftNext rightNext : α → Run β}
    (ends : EndsSame left right)
    (endsNext : ∀ result, EndsSame (leftNext result) (rightNext result)) :
    EndsSame (left >>= leftNext) (right >>= rightNext) := by
  intro first second same
  refine (ends first second same).bind ?_
  rintro result after _ otherAfter ⟨rfl, sameAfter⟩
  exact endsNext result after otherAfter sameAfter

theorem endsSame_tick (settings : Settings) : EndsSame (tick settings) (tick settings) := by
  rintro _ _ ⟨same, store, steps, draws, calls⟩
  cases limit : settings.limits.maxSteps with
  | none =>
      rw [tick_of_unbounded limit, tick_of_unbounded limit]
      exact .ok ⟨rfl, same, store, steps + 1, draws, calls⟩
  | some budget =>
      rw [tick_of_bounded limit, tick_of_bounded limit]
      by_cases exceeded : budget < steps + 1
      · rw [if_pos exceeded, if_pos exceeded]
        exact .error ⟨same, store, steps + 1, draws, calls⟩
      · rw [if_neg exceeded, if_neg exceeded]
        exact .ok ⟨rfl, same, store, steps + 1, draws, calls⟩

/-- Steps that read their machines first end the same if the rest does. -/
theorem endsSame_get {next otherNext : Machine → Run α}
    (rest : ∀ {first second : Machine}, first.SameButRandom second →
      EndsSame (next first) (otherNext second)) :
    EndsSame (get >>= next) (get >>= otherNext) :=
  fun first second same => rest same first second same

theorem Machine.SameButRandom.scopes {first second : Machine}
    (same : first.SameButRandom second) : first.scopes.SameButRandom second.scopes := by
  cases same with
  | intro same => exact same

/-- The name of the draws is not looked up, and other names are found the same. -/
theorem endsSame_readName {settings : Settings} {source : RandomSource}
    (isDrawn : settings.random = some source) (name : String) :
    EndsSame (readName settings name) (readName settings name) := by
  unfold readName
  rw [isDrawn]
  by_cases isRandom : name = randomName
  · simp only [if_pos isRandom]
    rintro _ _ ⟨same, store, steps, draws, calls⟩
    exact .ok ⟨rfl, same, store, steps, draws + 1, calls⟩
  · simp only [if_neg isRandom]
    apply endsSame_get
    intro first second same
    rw [Value.SameUnder.eq_of_rel (same.scopes.read name) isRandom]
    split
    · exact endsSame_throw _
    · exact endsSame_pure _
    · exact endsSame_pure _

theorem endsSame_writeName (name : String) (value : Value) :
    EndsSame (writeName name value) (writeName name value) := by
  rintro _ _ ⟨same, store, steps, draws, calls⟩
  exact .ok ⟨rfl, same.write name value, store, steps, draws, calls⟩

theorem endsSame_copyAt (level : Nat) (value : Value) :
    EndsSame (copyAt level value) (copyAt level value) := by
  rintro _ _ ⟨same, store, steps, draws, calls⟩
  simp only [copyAt]
  cases Store.copyAt level value store with
  | ok copy newer => exact .ok ⟨rfl, same, newer, steps, draws, calls⟩
  | error error newer => exact .error ⟨same, newer, steps, draws, calls⟩

theorem endsSame_newArray (slots : Slots) : EndsSame (newArray slots) (newArray slots) := by
  rintro _ _ ⟨same, store, steps, draws, calls⟩
  exact .ok ⟨rfl, same, _, steps, draws, calls⟩

theorem endsSame_writeSlot (settings : Settings) (location : Nat) (index : Int64)
    (value : Value) :
    EndsSame (writeSlot settings location index value)
      (writeSlot settings location index value) := by
  unfold writeSlot
  simp only
  split
  · exact endsSame_throw _
  · apply endsSame_get
    rintro _ _ ⟨_, store, _, _, _⟩
    apply (endsSame_copyAt (store.slotLevel location) value).bind
    rintro copy _ _ ⟨same, store, steps, draws, calls⟩
    exact .ok ⟨rfl, same, _, steps, draws, calls⟩

theorem endsSame_of_primitive {settings : Settings} {source : RandomSource}
    (isDrawn : settings.random = some source) {left right : Run α}
    (primitive : Primitive settings settings left right) : EndsSame left right := by
  cases primitive with
  | fail error => exact endsSame_throw _
  | readName name => exact endsSame_readName isDrawn name
  | writeName name value => exact endsSame_writeName name value
  | readSlot location index =>
      rintro _ _ ⟨same, store, steps, draws, calls⟩
      exact .ok ⟨rfl, same, store, steps, draws, calls⟩
  | writeSlot location index value => exact endsSame_writeSlot settings location index value
  | equal left right =>
      rintro _ _ ⟨same, store, steps, draws, calls⟩
      exact .ok ⟨rfl, same, store, steps, draws, calls⟩

/-! ## Calls -/

/-- A name that is bound to different data is no function on either side. -/
theorem endsSame_callee (name : String) (arguments : Nat) :
    EndsSame (callee name arguments) (callee name arguments) := by
  apply endsSame_get
  intro first second same
  rcases none_or_some_of_rel (same.scopes.read name) with
    ⟨isNone, otherNone⟩ | ⟨value, other, isSome, otherSome, isSame | ⟨_, isData, otherData⟩⟩
  · rw [isNone, otherNone]
    exact endsSame_throw _
  · subst isSame
    rw [isSome, otherSome]
    cases value with
    | function declaration =>
        dsimp only
        split
        · exact endsSame_pure declaration
        · exact endsSame_throw _
    | integer | array => exact endsSame_throw _
  · rw [isSome, otherSome]
    cases value with
    | function => exact isData.elim
    | integer | array =>
        cases other with
        | function => exact otherData.elim
        | integer | array => exact endsSame_throw _

theorem endsSame_enterCall (settings : Settings) (name : String)
    (declaration : FunctionDeclaration) (values : List Value) :
    EndsSame (enterCall settings name declaration values)
      (enterCall settings name declaration values) := by
  apply endsSame_get
  intro first second same
  simp only [same.scopes.depth_eq]
  split
  · exact endsSame_throw _
  · rintro _ _ ⟨same, store, steps, draws, calls⟩
    exact .ok ⟨rfl, same.push.writeAll _, store, steps, draws, _⟩

theorem endsSame_leaveCall (name : String) (depth : Nat) :
    EndsSame (leaveCall name depth) (leaveCall name depth) := by
  apply endsSame_get
  intro first second same
  have sameResult : (first.scopes.read returnName).getD (.integer 0) =
      (second.scopes.read returnName).getD (.integer 0) := by
    rw [Value.SameUnder.eq_of_rel (same.scopes.read returnName) (by decide)]
  obtain ⟨same, store, steps, draws, calls⟩ := same
  rcases none_or_some_of_rel same.pop? with
    ⟨isNone, otherNone⟩ | ⟨scopes, other, isSome, otherSome, sameScopes⟩
  · simp only [isNone, otherNone]
    exact endsSame_throw _
  · simp only [isSome, otherSome]
    exact fun _ _ _ => .ok ⟨sameResult, sameScopes, store, steps, draws, _⟩

end

/-- Ending the same as a relation that every layer keeps. -/
def sameButRandom {settings : Settings} {source : RandomSource}
    (isDrawn : settings.random = some source) : RunRelation settings settings :=
  let steps : StepRelation :=
    { Rel := EndsSame
      value := endsSame_pure
      bind := EndsSame.bind }
  { steps with
    primitive := endsSame_of_primitive isDrawn
    array := fun related => steps.evalArray_of_steps related (endsSame_copyAt 2) endsSame_newArray
    call := fun related execRelated => steps.evalCall_of_steps related execRelated endsSame_callee
      (endsSame_enterCall settings) endsSame_leaveCall }

theorem endsSame_execBlock {settings : Settings} {source : RandomSource}
    (isDrawn : settings.random = some source) (fuel : Nat) (block : Block) :
    EndsSame (execBlock settings fuel block) (execBlock settings fuel block) :=
  ((sameButRandom isDrawn).agree_atFuel (endsSame_tick settings) (endsSame_throw _) fuel).block
    block

/-- States that agree on all names but one are the same without it. -/
theorem State.erase_eq_of_agree {first second : State} {name : String}
    (agree : ∀ other, other ≠ name → first[other]? = second[other]?) :
    first.erase name = second.erase name := by
  apply Std.ExtTreeMap.ext_getElem?
  intro other
  rw [Std.ExtTreeMap.getElem?_erase, Std.ExtTreeMap.getElem?_erase]
  simp only [Std.LawfulEqCmp.compare_eq_iff_eq]
  split
  · rfl
  · next different => exact agree other (Ne.symm different)

/-- Final states of machines that are the same up to the name of the draws agree on
every other name. -/
theorem Machine.SameButRandom.globalState_erase {first second : Machine}
    (same : first.SameButRandom second) :
    first.globalState.erase randomName = second.globalState.erase randomName := by
  apply State.erase_eq_of_agree
  intro name notRandom
  have sameGlobal := Value.SameUnder.eq_of_rel (same.scopes.globals name) notRandom
  rw [globalState, globalState, Std.ExtTreeMap.getElem?_filterMap',
    Std.ExtTreeMap.getElem?_filterMap', sameGlobal]
  obtain ⟨_, store, _, _, _⟩ := same
  rfl

/-- Executing from such machines is reported the same up to the name. -/
theorem Machine.SameButRandom.ofOutcome_execBlock {first second : Machine}
    (same : first.SameButRandom second) {settings : Settings} {source : RandomSource}
    (isDrawn : settings.random = some source) (fuel : Nat) (block : Block) :
    (Report.ofOutcome (execBlock settings fuel block first)).mapState (·.erase randomName) =
      (Report.ofOutcome (execBlock settings fuel block second)).mapState (·.erase randomName) := by
  have ends := endsSame_execBlock isDrawn fuel block first second same
  generalize execBlock settings fuel block first = outcome at ends
  generalize execBlock settings fuel block second = otherOutcome at ends
  cases ends with
  | ok holds =>
      obtain ⟨rfl, sameAfter⟩ := holds
      have sameState := sameAfter.globalState_erase
      obtain ⟨_, store, steps, draws, calls⟩ := sameAfter
      simp only [Report.ofOutcome, Report.mapState, sameState]
  | @error halt _ _ sameAfter =>
      obtain ⟨_, store, steps, draws, calls⟩ := sameAfter
      cases halt <;> rfl

/-! ## Arrays that nothing refers to -/

namespace Likeness

/-- Runs with the same arrays as those of a likeness, of which all names may be
used. -/
def unrestricted (likeness : Likeness) : Likeness where
  matching := { likeness.matching with Functions := fun _ => True }
  Names _ := True
  hidden := ∅
  deepest := likeness.deepest
  deep := likeness.deep
  returnName_allowed := trivial
  function_iff := ⟨fun _ => ⟨fun _ _ => trivial, fun _ _ => trivial⟩, fun _ => trivial⟩

variable {likeness : Likeness}

theorem values_unrestricted {value other : Value} (matched : likeness.matching.Values value other) :
    likeness.unrestricted.matching.Values value other := by
  cases matched with
  | integer value => exact .integer value
  | array located => exact .array located
  | function => exact .function trivial

theorem alike_unrestricted {first second : Store}
    (alike : Store.Alike likeness.matching first second) :
    Store.Alike likeness.unrestricted.matching first second where
  level_eq := alike.level_eq
  read located index := values_unrestricted (alike.read located index)
  next := alike.next
  size_le := alike.size_le
  hidden := alike.hidden

/-- If one name may not be used, all may when it is bound anew on both sides. -/
theorem ScopesAlike.unrestricted_write {first second : Bindings} {name : String}
    (alike : likeness.ScopesAlike (.ofGlobals first) (.ofGlobals second))
    (allowed : ∀ other, other ≠ name → likeness.Names other) (value : Int64) :
    likeness.unrestricted.ScopesAlike ((Scopes.ofGlobals first).write name (.integer value))
      ((Scopes.ofGlobals second).write name (.integer value)) := by
  refine ⟨fun other _ => ?_, fun other notAllowed => absurd trivial notAllowed, .nil⟩
  show Option.Rel _ (first.insert name (.integer value))[other]?
    (second.insert name (.integer value))[other]?
  rw [Scopes.getElem?_insert_bindings, Scopes.getElem?_insert_bindings]
  split
  · exact .some (.integer value)
  · next different =>
      have related : Option.Rel likeness.matching.Values first[other]? second[other]? :=
        alike.globals other (allowed other (Ne.symm different))
      rcases none_or_some_of_rel related with
        ⟨isNone, otherNone⟩ | ⟨bound, otherBound, isSome, otherSome, matched⟩
      · rw [isNone, otherNone]
        exact .none
      · rw [isSome, otherSome]
        exact .some (values_unrestricted matched)

end Likeness

/-! ## Runs -/

namespace Machine

/-- The machine that a run against a state starts in, but with the name of the draws
bound to zero. -/
def veiled (state : State) : Machine :=
  (ofState state).write randomName (.integer 0)

/-- A run starts the same if the data under the name is replaced. -/
theorem sameButRandom_veiled {state : State} (bound : randomName ∈ state) :
    (ofState state).SameButRandom (veiled state) := by
  have sameScopes : (ofState state).scopes.SameButRandom (veiled state).scopes := by
    refine ⟨fun name => ?_, rfl⟩
    show Option.Rel _ (loadGlobals state).1[name]?
      ((loadGlobals state).1.insert randomName (.integer 0))[name]?
    rw [Scopes.getElem?_insert_bindings]
    split
    · next isRandom =>
        subst isRandom
        have isBound : randomName ∈ (loadGlobals state).1 := mem_globals_ofState.mpr bound
        rw [Std.ExtTreeMap.getElem?_eq_some_getElem isBound]
        have isFound := Std.ExtTreeMap.getElem?_eq_some_getElem isBound
        have isData := (isData_loadGlobals state).1 isFound
        exact .some (.inr ⟨rfl, isData, trivial⟩)
    · cases (loadGlobals state).1[name]? with
      | none => exact .none
      | some value => exact .some (.inl rfl)
  exact ⟨sameScopes, (ofState state).store, 0, 0, #[]⟩

end Machine

namespace Likeness

/-- Executing from a state without the name is the same as from a state with it, when
the name is bound to zero in both. -/
theorem ofOutcome_execBlock_veiled {state : State} (absent : randomName ∉ state)
    (value : StateValue) (settings : Settings) (fuel : Nat) (block : Block) :
    Report.ofOutcome (execBlock settings fuel block
        (Machine.veiled (state.insert randomName value))) =
      Report.ofOutcome (execBlock settings fuel block (Machine.veiled state)) := by
  obtain ⟨globals, store, _, _, _, _, storeAlike, scopesAlike⟩ :=
    exists_extended_loadedAlike (by decide) absent value
  have together : ((extended globals store randomName (by decide) value
      state.nesting).unrestricted.pairing settings).Together (Machine.veiled state)
      (Machine.veiled (state.insert randomName value)) := by
    have sound : (Machine.ofState state).Sound (max maxArrayNesting state.nesting) :=
      Machine.sound_ofState (Nat.le_max_right _ _)
    have hasZero : (Machine.ofState state).store.Has (.integer 0) := nofun
    exact ⟨(Machine.ends_writeName randomName sound hasZero).inv, alike_unrestricted storeAlike,
      scopesAlike.unrestricted_write (fun _ => id) 0, rfl, rfl, rfl⟩
  rw [ofOutcome_execBlock _ (fun _ _ => trivial) together id, Report.mapState_id]
  intro first second togetherAfter _
  apply Std.ExtTreeMap.ext_getElem?
  exact fun name => (getElem?_globalState togetherAfter trivial).symm

end Likeness

/-- A state that has a name is the state without it, extended by the name. -/
theorem State.exists_eq_insert_erase {state : State} {name : String} (bound : name ∈ state) :
    ∃ value, state = (state.erase name).insert name value := by
  refine ⟨state[name], ?_⟩
  apply Std.ExtTreeMap.ext_getElem?
  intro other
  rw [Std.ExtTreeMap.getElem?_insert, Std.ExtTreeMap.getElem?_erase]
  simp only [Std.LawfulEqCmp.compare_eq_iff_eq]
  by_cases isName : name = other
  · subst isName
    rw [if_pos rfl, Std.ExtTreeMap.getElem?_eq_some_getElem bound]
  · rw [if_neg isName, if_neg isName]

namespace Program

/-- Where `rand` is drawn at each read, what is stored under it is never read: runs
against two states with the name, which agree on every other one, count, draw and log
the same, and fail the same or end with states that agree on every other name. -/
theorem stored_random_is_never_read (program : Program) (limits : Limits) (random : RandomSource)
    (drawn : .randomVariable ∈ program.features) {first second : State}
    (inFirst : randomName ∈ first) (inSecond : randomName ∈ second)
    (same : ∀ name, name ≠ randomName → first[name]? = second[name]?) (fuel : Nat) :
    (program.runWithFuel fuel first limits random).mapState (·.erase randomName) =
      (program.runWithFuel fuel second limits random).mapState (·.erase randomName) := by
  have isDrawn : (program.settings limits random).random = some random := if_pos drawn
  -- Both runs are compared with the one in which the value was never loaded.
  have isVeiled : ∀ {state : State}, randomName ∈ state →
      (program.runWithFuel fuel state limits random).mapState (·.erase randomName) =
        (Report.ofOutcome (execBlock (program.settings limits random) fuel program.body
          (Machine.veiled (state.erase randomName)))).mapState (·.erase randomName) := by
    intro state bound
    obtain ⟨value, isInsert⟩ := State.exists_eq_insert_erase bound
    have absent : randomName ∉ state.erase randomName := by simp
    rw [runWithFuel_eq_execBlock, (Machine.sameButRandom_veiled bound).ofOutcome_execBlock isDrawn,
      isInsert, Likeness.ofOutcome_execBlock_veiled absent, ← isInsert]
  rw [isVeiled inFirst, isVeiled inSecond, State.erase_eq_of_agree same]

/-- Binds `rand` as a parameter, reads it, and stores what was drawn in a list. -/
def drawsInCall : Program where
  features := FeatureSet.all
  body := [
    .declare "draw" ["rand"] [.giveBack (.name "rand")],
    .store (.name "z") (.integer 1) (.call "draw" [.integer 4])]

theorem stored_random_is_never_read_drawsInCall :
    let others := (∅ : State).insert "z" (.list [.integer 1])
    (drawsInCall.runWithFuel 40 (others.insert "rand" (.list [.integer 2, .list [.integer 3]]))
        Limits.default fun _ => 9).mapState (·.erase randomName) =
      (drawsInCall.runWithFuel 40 (others.insert "rand" (.integer 5)) Limits.default
        fun _ => 9).mapState (·.erase randomName) ∧
    ((drawsInCall.runWithFuel 40 (others.insert "rand" (.integer 5)) Limits.default
        fun _ => 9).mapState (·.erase randomName)).ending =
      .finished ((∅ : State).insert "z" (.list [.integer 1, .integer 9])) false := by
  refine ⟨?_, by decide +kernel⟩
  apply stored_random_is_never_read
  · decide
  · simp [randomName]
  · simp [randomName]
  · intro name different
    have notRandom : ¬ "rand" = name := Ne.symm different
    simp only [Std.ExtTreeMap.getElem?_insert, Std.LawfulEqCmp.compare_eq_iff_eq,
      if_neg notRandom]

end Program

end Scriptlet
