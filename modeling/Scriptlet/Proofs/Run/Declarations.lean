import Scriptlet.Proofs.Run.Functions
import Scriptlet.Proofs.Run.Halting

/-!
Contract: functions never become values.

Owns:
- machines whose arrays hold data, and whose names are bound only to functions that
  they are allowed to be bound to;
- steps on data keep them so, also where they halt;
- throughout a run, a name is bound to a function only if a declaration of the name
  was executed before;
- no expression gives a function, and no failure tells the type of one.

Steps are counted before anything else is done, so the number of counted steps tells
what was done before what.
-/

namespace Scriptlet

open Run

/-! ## Machines -/

/-- Machines whose arrays hold data, and in which every name that is bound to a
function is allowed to be. -/
structure Machine.FunctionsOnly (Allows : String → FunctionDeclaration → Prop)
    (machine : Machine) : Prop where
  data : machine.store.HoldsData
  names : machine.scopes.BindsOnly fun name value =>
    ∀ declaration, value = .function declaration → Allows name declaration

/-- Data is bound to any name. -/
theorem Value.IsData.allowed {value : Value} (isData : value.IsData)
    {Allows : FunctionDeclaration → Prop} :
    ∀ declaration, value = .function declaration → Allows declaration := by
  rintro declaration rfl
  exact isData.elim

theorem Value.IsData.type_ne_function {value : Value} (isData : value.IsData) :
    value.type ≠ .function := by
  cases value with
  | function => exact isData.elim
  | integer | array => nofun

namespace Machine

variable {Allows : String → FunctionDeclaration → Prop} {machine after : Machine}

theorem FunctionsOnly.changeStore (only : machine.FunctionsOnly Allows)
    (sameScopes : after.scopes = machine.scopes) (data : after.store.HoldsData) :
    after.FunctionsOnly Allows :=
  ⟨data, sameScopes ▸ only.names⟩

theorem FunctionsOnly.weaken {Weaker : String → FunctionDeclaration → Prop}
    (only : machine.FunctionsOnly Allows)
    (implies : ∀ {name declaration}, Allows name declaration → Weaker name declaration) :
    machine.FunctionsOnly Weaker := by
  refine ⟨only.data, fun bindings member name value found declaration isFunction => ?_⟩
  exact implies (only.names bindings member found declaration isFunction)

end Machine

/-! ## Steps -/

/-- Whether a step, however it ends, binds no name to a function and puts none into an
array. -/
def MakesNoFunctions {α : Type} (action : Run α) : Prop :=
  ∀ (Allows : String → FunctionDeclaration → Prop) (before : Machine),
    before.FunctionsOnly Allows →
    (action.final before).FunctionsOnly Allows ∧ before.steps ≤ (action.final before).steps

section

variable {α : Type}

theorem makesNoFunctions_of_ensures {action : Run α}
    (ensures : ∀ {Allows : String → FunctionDeclaration → Prop} {before : Machine},
      before.FunctionsOnly Allows → Ensures action before
        (fun _ after => after.FunctionsOnly Allows ∧ before.steps ≤ after.steps)
        fun _ after => after.FunctionsOnly Allows ∧ before.steps ≤ after.steps) :
    MakesNoFunctions action := by
  intro Allows before only
  cases outcome : action before with
  | ok result after =>
      rw [final_of_ok outcome]
      exact (ensures only).of_ok outcome
  | error halt after =>
      rw [final_of_error outcome]
      exact (ensures only).of_error outcome

theorem makesNoFunctions_of_changes {action : Run α} {change : Machine → Machine → Prop}
    (changes : Changes change action)
    (same : ∀ {before after}, change before after → after.scopes = before.scopes ∧
      after.store = before.store ∧ before.steps ≤ after.steps) :
    MakesNoFunctions action := by
  intro Allows before only
  obtain ⟨sameScopes, sameStore, later⟩ := same (changes before).1
  exact ⟨only.changeStore sameScopes (sameStore ▸ only.data), later⟩

theorem makesNoFunctions_ofExcept (outcome : Except RunError α) :
    MakesNoFunctions (ofExcept outcome) := by
  intro Allows before only
  cases outcome with
  | ok value => exact ⟨only, Nat.le_refl _⟩
  | error error => exact ⟨only, Nat.le_refl _⟩

theorem makesNoFunctions_writeName (name : String) {value : Value} (isData : value.IsData) :
    MakesNoFunctions (writeName name value) :=
  fun _ _ only => ⟨⟨only.data, only.names.write isData.allowed⟩, Nat.le_refl _⟩

theorem makesNoFunctions_copyAt (level : Nat) {value : Value} (isData : value.IsData) :
    MakesNoFunctions (copyAt level value) := by
  intro Allows before only
  cases outcome : Store.copyAt level value before.store with
  | ok copy store =>
      rw [final_of_ok (copyAt_of_ok outcome)]
      obtain ⟨data, _⟩ := Store.copyingData.copyInRoom only.data isData outcome
      exact ⟨⟨data, only.names⟩, Nat.le_refl _⟩
  | error error store =>
      rw [final_of_error (copyAt_of_error outcome)]
      exact ⟨⟨Store.copyingData.copyInRoom_error only.data isData outcome, only.names⟩,
        Nat.le_refl _⟩

theorem makesNoFunctions_writeSlot (settings : Settings) (location : Nat) (index : Int64)
    {value : Value} (isData : value.IsData) :
    MakesNoFunctions (writeSlot settings location index value) := by
  intro Allows before only
  cases outcome : writeSlot settings location index value before with
  | ok _ after =>
      obtain ⟨copy, store, copied, rfl⟩ := exists_copy_of_writeSlot outcome
      obtain ⟨data, copyData⟩ := Store.copyingData.copyInRoom only.data isData copied
      rw [final_of_ok outcome]
      exact ⟨⟨data.write _ _ copyData, only.names⟩, Nat.le_refl _⟩
  | error halt after =>
      rw [final_of_error outcome]
      unfold writeSlot at outcome
      simp only at outcome
      split at outcome
      · cases outcome
        exact ⟨only, Nat.le_refl _⟩
      · rcases bind_eq_error_iff.mp outcome with reads | ⟨_, _, reads, copying⟩
        · cases reads
        · cases reads
          rcases bind_eq_error_iff.mp copying with copies | ⟨_, _, _, writes⟩
          · have kept := makesNoFunctions_copyAt (before.store.slotLevel location) isData Allows
              before only
            rwa [final_of_error copies] at kept
          · cases writes

/-- A copy of data is data. -/
theorem CopyOf.isData {copy : Value} (isCopy : CopyOf Value.IsData copy) : copy.IsData := by
  obtain ⟨level, value, before, after, isData, copied⟩ := isCopy
  obtain ⟨store, copies, _⟩ := exists_store_of_copyAt copied
  cases value with
  | function => exact isData.elim
  | integer number =>
      have isSame : Store.copyAt level (.integer number) before.store =
          .ok (.integer number) before.store := Store.copyInRoom_of_not_array (by simp)
      rw [isSame] at copies
      cases copies
      trivial
  | array location =>
      obtain ⟨_, _, _, _, _, isArray, _⟩ := Store.copyInRoom_array_eq_ok copies
      rw [isArray]
      trivial

theorem makesNoFunctions_newArray {slots : Slots} (slotsData : slots.HoldData) :
    MakesNoFunctions (newArray slots) :=
  fun _ _ only => ⟨⟨only.data.allocate 1 slotsData, only.names⟩, Nat.le_refl _⟩

theorem makesNoFunctions_enterCall (settings : Settings) (name : String)
    (declaration : FunctionDeclaration) {values : List Value}
    (isData : ∀ value ∈ values, value.IsData) :
    MakesNoFunctions (enterCall settings name declaration values) := by
  apply makesNoFunctions_of_ensures
  intro Allows before only
  have entered : (before.enter name declaration values).FunctionsOnly Allows := by
    refine ⟨only.data, only.names.push.writeAll fun binding member => ?_⟩
    exact (isData _ (List.of_mem_zip member).2).allowed
  show Ensures (if settings.limits.maxCallDepth ≤ before.scopes.depth then _ else _) before _ _
  split
  · exact ⟨only, Nat.le_refl _⟩
  · exact ⟨entered, Nat.le_refl _⟩

theorem makesNoFunctions_leaveCall (name : String) (depth : Nat) :
    MakesNoFunctions (leaveCall name depth) := by
  apply makesNoFunctions_of_ensures
  intro Allows before only
  apply ensures_get
  simp only
  split
  · exact ⟨only, Nat.le_refl _⟩
  · next scopes popped => exact ⟨⟨only.data, only.names.pop popped⟩, Nat.le_refl _⟩

/-- No step that a node makes itself, on data, makes functions. -/
theorem OwnStep.makesNoFunctions {settings : Settings} {action : Run α}
    (own : OwnStep settings Value.IsData action) : MakesNoFunctions action := by
  cases own with
  | tick =>
      apply makesNoFunctions_of_changes (changes_tick settings)
      rintro before _ rfl
      exact ⟨rfl, rfl, Nat.le_succ _⟩
  | integer | truth | array | index | arithmetic => exact makesNoFunctions_ofExcept _
  | equal left right =>
      exact makesNoFunctions_of_changes (changes_equal left right) fun same => by simp [same]
  | readName name =>
      apply makesNoFunctions_of_changes (changes_readName settings name)
      intro before after same
      rw [same]
      exact ⟨rfl, rfl, Nat.le_refl _⟩
  | writeName name isData => exact makesNoFunctions_writeName name isData
  | readSlot location index =>
      exact makesNoFunctions_of_changes (changes_readSlot location index) fun same => by
        simp [same]
  | writeSlot location index isData =>
      exact makesNoFunctions_writeSlot settings location index isData
  | copyAt level isData => exact makesNoFunctions_copyAt level isData
  | newArray copies => exact makesNoFunctions_newArray fun found => (copies found).isData
  | callee name arguments =>
      exact makesNoFunctions_of_changes (changes_callee name arguments) fun same => by simp [same]
  | enterCall name declaration isData =>
      exact makesNoFunctions_enterCall settings name declaration isData
  | leaveCall name depth => exact makesNoFunctions_leaveCall name depth

end

/-! ## Runs -/

namespace Program

section

variable (program : Program) (fuel : Nat) (initial : State) (limits : Limits)
  (random : RandomSource)

/-- Whether a run executed a declaration of a name as a function, and had counted no
more than some steps when it was done. -/
def Declares (steps : Nat) (name : String) (declaration : FunctionDeclaration) : Prop :=
  ∃ visit after, program.Visits fuel initial limits random visit ∧
    visit.node = .statement (.declare name declaration.parameters declaration.body) ∧
    declaration.name = name ∧
    (Evaluator.atFuel (program.settings limits random) visit.fuel).execute visit.node
      visit.machine = .ok .proceed after ∧
    after.steps ≤ steps

/-- Whether in a machine arrays hold data, and names are bound only to functions that
the run has declared under them so far. -/
def DeclaredSoFar (machine : Machine) : Prop :=
  machine.FunctionsOnly (program.Declares fuel initial limits random machine.steps)

end

variable {features : FeatureSet} {source : String} {program : Program} {fuel : Nat}
  {initial : State} {limits : Limits} {random : RandomSource}

/-- A run takes up parts of the program only, where names are bound only to functions
that the program declares. -/
theorem within_of_visits (compiled : compile features source = .ok program) {visit : Visit}
    (visits : program.Visits fuel initial limits random visit) :
    visit.node.Within (.block program.body) ∧ visit.machine.DeclaredIn (.block program.body) :=
  (keepingFunctionsApart (program.settings limits random) (.block program.body)
    (returnName_not_declared compiled)).of_makes visits .refl
      (Machine.declaredIn_ofState _ initial)

/-- Expressions of a compiled program give data. -/
theorem isData_of_visits (compiled : compile features source = .ok program) {expr : Expr}
    {less : Nat} {machine after : Machine} {value : Value}
    (visits : program.Visits fuel initial limits random ⟨.expr expr, less, machine⟩)
    (evaluated : evalExpr (program.settings limits random) less expr machine =
      .ok value after) : value.IsData := by
  obtain ⟨within, declared⟩ := within_of_visits compiled visits
  have meets := (keepingFunctionsApart (program.settings limits random) (.block program.body)
    (returnName_not_declared compiled)).meets_atFuel less
  exact ((meets.expr within declared).of_ok evaluated).2.2

theorem isData_of_obtains (compiled : compile features source = .ok program) {visit : Visit}
    {value : Value} (visits : program.Visits fuel initial limits random visit)
    (obtains : visit.Obtains (program.settings limits random) value) : value.IsData := by
  obtain ⟨expr, less, start, after, begins, evaluated⟩ := obtains
  exact isData_of_visits compiled (visits.tail begins) evaluated

theorem declaredSoFar_ofState :
    program.DeclaredSoFar fuel initial limits random (Machine.ofState initial) := by
  obtain ⟨globalsData, storeData⟩ := Machine.isData_loadGlobals initial
  refine ⟨storeData, List.forall_mem_singleton.mpr fun name value found => ?_⟩
  exact (globalsData found).allowed

/-- Steps of the nodes themselves keep it. -/
theorem DeclaredSoFar.step (compiled : compile features source = .ok program) {visit : Visit}
    {α : Type} {action : Run α} {machine : Machine}
    (visits : program.Visits fuel initial limits random visit)
    (own : OwnStep (program.settings limits random)
      (visit.Obtains (program.settings limits random)) action)
    (soFar : program.DeclaredSoFar fuel initial limits random machine) :
    program.DeclaredSoFar fuel initial limits random (action.final machine) := by
  have onData := own.weaken (isData_of_obtains compiled visits)
  obtain ⟨kept, later⟩ := onData.makesNoFunctions _ machine soFar
  apply kept.weaken
  rintro name declaration ⟨declaring, after, isVisit, isNode, isName, executed, done⟩
  exact ⟨declaring, after, isVisit, isNode, isName, executed, Nat.le_trans done later⟩

/-- Declarations add to it. -/
theorem DeclaredSoFar.declare {name : String} {parameters : List String} {body : Block}
    {less : Nat} {before counted : Machine}
    (visits : program.Visits fuel initial limits random
      ⟨.statement (.declare name parameters body), less + 1, before⟩)
    (counts : tick (program.settings limits random) before = .ok () counted)
    (soFar : program.DeclaredSoFar fuel initial limits random counted) :
    program.DeclaredSoFar fuel initial limits random
      (counted.write name (.function ⟨name, parameters, body⟩)) := by
  have executed : (Evaluator.atFuel (program.settings limits random) (less + 1)).execute
      (.statement (.declare name parameters body)) before =
        .ok .proceed (counted.write name (.function ⟨name, parameters, body⟩)) := by
    rw [execute_succ]
    exact bind_of_ok counts
  refine ⟨soFar.data, soFar.names.write ?_⟩
  rintro _ ⟨⟩
  exact ⟨_, _, visits, rfl, rfl, executed, Nat.le_refl _⟩

/-- It holds throughout a run. -/
theorem declaredSoFar_of_visits (compiled : compile features source = .ok program)
    {visit : Visit} (visits : program.Visits fuel initial limits random visit) :
    program.DeclaredSoFar fuel initial limits random visit.machine ∧
      program.DeclaredSoFar fuel initial limits random
        (visit.ended (program.settings limits random)) := by
  have start : program.DeclaredSoFar fuel initial limits random
      (program.visit fuel initial).machine := declaredSoFar_ofState
  apply Visit.holds_throughout _ _ start visits
  · exact fun visits own => DeclaredSoFar.step compiled visits own
  · exact fun visits counts => DeclaredSoFar.declare visits counts

/-- What a compiled program declares, it does not declare under the name of returned
values. -/
theorem Declares.ne_returnName (compiled : compile features source = .ok program) {steps : Nat}
    {name : String} {declaration : FunctionDeclaration}
    (declares : program.Declares fuel initial limits random steps name declaration) :
    name ≠ returnName := by
  rintro rfl
  obtain ⟨visit, _, visits, isNode, _⟩ := declares
  have within := (within_of_visits compiled visits).1
  rw [isNode] at within
  exact returnName_not_declared compiled _ _ within

/-- A run does not fail in a way that is foreign to steps on data. -/
theorem ending_ne_of_isForeign (compiled : compile features source = .ok program)
    {error : RunError}
    (foreign : (Halt.failed error).IsForeign (program.settings limits random) Value.IsData) :
    (program.runWithFuel fuel initial limits random).ending ≠ .failed error := by
  intro isFailed
  have halts : (program.visit fuel initial).Halts (program.settings limits random)
      (.failed error) := ending_eq_failed_iff.mp isFailed
  exact Visit.not_halts_of_isForeign (isData_of_obtains compiled) foreign .refl halts

/-- Functions never become values.  In every run of a compiled program, with whatever
features: wherever a node is taken up and wherever its evaluation ends, no slot of an
array holds a function, and a name that is bound to one is not that of returned values,
and was bound by a declaration of it that the run had executed before.  No expression
gives a function, and the run does not fail by telling the type of one. -/
theorem functions_never_become_values (compiled : compile features source = .ok program)
    (fuel : Nat) (initial : State) (limits : Limits) (random : RandomSource) :
    (∀ visit, program.Visits fuel initial limits random visit →
      ∀ machine, machine = visit.machine ∨
          machine = visit.ended (program.settings limits random) →
        (∀ location index declaration,
          machine.store.read location index ≠ .function declaration) ∧
        ∀ bindings ∈ machine.scopes.globals :: machine.scopes.frames, ∀ name declaration,
          bindings[name]? = some (.function declaration) →
          name ≠ returnName ∧
            program.Declares fuel initial limits random machine.steps name declaration) ∧
    (∀ expr less machine value after,
      program.Visits fuel initial limits random ⟨.expr expr, less, machine⟩ →
      evalExpr (program.settings limits random) less expr machine = .ok value after →
      ∀ declaration, value ≠ .function declaration) ∧
    (∀ operation, (program.runWithFuel fuel initial limits random).ending ≠
      .failed (.expectedInteger operation .function)) ∧
    (program.runWithFuel fuel initial limits random).ending ≠
      .failed (.expectedArray .function) := by
  refine ⟨?_, ?_, fun operation => ?_, ?_⟩
  · intro visit visits machine isReached
    have soFar : program.DeclaredSoFar fuel initial limits random machine := by
      rcases isReached with rfl | rfl
      · exact (declaredSoFar_of_visits compiled visits).1
      · exact (declaredSoFar_of_visits compiled visits).2
    constructor
    · intro location index declaration isFunction
      have isData := soFar.data.read location index
      rw [isFunction] at isData
      exact isData
    · intro bindings member name declaration bound
      have declares := soFar.names bindings member bound declaration rfl
      exact ⟨declares.ne_returnName compiled, declares⟩
  · rintro expr less machine _ after visits evaluated declaration rfl
    exact isData_of_visits compiled visits evaluated
  · apply ending_ne_of_isForeign compiled
    rintro error ⟨⟩ ⟨value, isData, isFunction⟩
    exact isData.type_ne_function isFunction
  · apply ending_ne_of_isForeign compiled
    rintro error ⟨⟩ ⟨value, isData, isFunction⟩
    exact isData.type_ne_function isFunction

/-- Puts the result of a call into an array, and then tries to put the function there. -/
def storesFunction : Program where
  features := FeatureSet.all
  body := [
    .declare "f" ["n"] [.giveBack (.name "n")],
    .assign "a" (.array [.call "f" [.integer 2]]),
    .store (.name "a") (.integer 1) (.name "f")]

theorem functions_never_become_values_storesFunction :
    let settings := storesFunction.settings Limits.default fun _ => 0
    let machine := (storesFunction.visit 20 ∅).ended settings
    (storesFunction.runWithFuel 20 ∅ Limits.default fun _ => 0).ending =
      .failed (.functionNotAValue "f") ∧
    (∀ location index declaration,
      machine.store.read location index ≠ .function declaration) ∧
    storesFunction.Declares 20 ∅ Limits.default (fun _ => 0) machine.steps "f"
      ⟨"f", ["n"], [.giveBack (.name "n")]⟩ := by
  intro settings machine
  have compiled : compile FeatureSet.all
      "func f(n) \x7b\nreturn n\n\x7d\na = [f(2)]\na[1] = f" = .ok storesFunction := by
    decide +kernel
  obtain ⟨slots, names⟩ := (functions_never_become_values compiled 20 ∅ Limits.default
    fun _ => 0).1 _ .refl machine (.inr rfl)
  have bound : machine.scopes.globals["f"]? =
      some (.function ⟨"f", ["n"], [.giveBack (.name "n")]⟩) := by
    decide +kernel
  exact ⟨by decide +kernel, slots, (names _ List.mem_cons_self _ _ bound).2⟩

end Program

end Scriptlet
