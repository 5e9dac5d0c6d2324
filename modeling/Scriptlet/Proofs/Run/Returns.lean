import Scriptlet.Proofs.Parser.Names
import Scriptlet.Proofs.Run.Bindings
import Scriptlet.Proofs.Run.Names

/-!
Contract: returned values do not leak between activations.

Owns:
- machines in which no name stands for a returned value, which every evaluation
  of a compiled program with functions keeps, except that returning leaves one in
  the frame that is about to be closed;
- a call gives what a return statement of its own activation returned, or zero if
  none was executed;
- the final state has a returned value exactly if the run was ended by a return
  outside of calls.

A returned value is bound under a name and read back through all frames.  That
name is a keyword, so no statement and no parameter binds it, and only functions
that the program declares are called.
-/

namespace Scriptlet

open Run

/-! ## Reading an unbound name -/

namespace Scopes

variable {scopes : Scopes} {name : String}

theorem read_eq_none_iff :
    scopes.read name = none ↔ name ∉ scopes.globals ∧ ∀ frame ∈ scopes.frames, name ∉ frame := by
  rw [← readFrames_eq_none_iff]
  unfold read
  cases readFrames name scopes.frames with
  | some value => simp
  | none => simp

theorem read_push (scopes : Scopes) (name : String) : scopes.push.read name = scopes.read name := by
  simp [push, read, readFrames]

theorem read_writeAll_of_ne (scopes : Scopes) {bindings : List (String × Value)}
    (different : ∀ binding ∈ bindings, name ≠ binding.1) :
    (scopes.writeAll bindings).read name = scopes.read name := by
  induction bindings generalizing scopes with
  | nil => rfl
  | cons binding rest inductionHypothesis =>
      rw [List.forall_mem_cons] at different
      exact (inductionHypothesis _ different.2).trans (read_write_of_ne _ different.1 _)

/-- A name that was not bound reads as what is written. -/
theorem read_write_of_read_eq_none (unbound : scopes.read name = none) (value : Value) :
    (scopes.write name value).read name = some value := by
  obtain ⟨notGlobal, _⟩ := read_eq_none_iff.mp unbound
  obtain ⟨globals, frames⟩ := scopes
  cases frames with
  | nil => simp [write, read, readFrames]
  | cons frame outer => simp [write, notGlobal, read, readFrames]

/-- No name comes to be bound while names are kept. -/
theorem KeepsNames.read_eq_none {after : Scopes} (keeps : scopes.KeepsNames after)
    (unbound : scopes.read name = none) : after.read name = none := by
  rw [read_eq_none_iff] at unbound ⊢
  rw [keeps.frames, keeps.globals]
  exact unbound

end Scopes

/-! ## The discipline -/

/-- A machine whose functions were declared by nodes that introduce nothing under
the name of returned values, and whose arrays hold data only. -/
structure Machine.Tidy (machine : Machine) : Prop where
  declared : ∀ {declaration : FunctionDeclaration},
    machine.scopes.Binds (.function declaration) →
    ¬ (Node.statement (.declare declaration.name declaration.parameters
      declaration.body)).Mentions returnName
  data : machine.store.HoldsData

namespace Machine

variable {before after : Machine}

/-- A machine stays tidy when only its store changes. -/
theorem Tidy.changeStore (tidy : before.Tidy) (scopes : after.scopes = before.scopes)
    (data : after.store.HoldsData) : after.Tidy := by
  refine ⟨?_, data⟩
  rw [scopes]
  exact tidy.declared

theorem Tidy.write (tidy : before.Tidy) (name : String) {value : Value} (isData : value.IsData) :
    (before.write name value).Tidy := by
  refine ⟨fun binds => ?_, tidy.data⟩
  rcases Scopes.binds_write binds with isValue | binds
  · rw [← isValue] at isData
    exact isData.elim
  · exact tidy.declared binds

theorem Tidy.declare (tidy : before.Tidy) {name : String} {parameters : List String}
    {body : Block}
    (admits : ¬ (Node.statement (.declare name parameters body)).Mentions returnName) :
    (before.write name (.function ⟨name, parameters, body⟩)).Tidy := by
  refine ⟨fun binds => ?_, tidy.data⟩
  rcases Scopes.binds_write binds with isFunction | binds
  · cases isFunction
    exact admits
  · exact tidy.declared binds

theorem Tidy.enter (tidy : before.Tidy) (name : String) (declaration : FunctionDeclaration)
    {values : List Value} (isData : ∀ value ∈ values, value.IsData) :
    (before.enter name declaration values).Tidy := by
  refine ⟨fun binds => ?_, tidy.data⟩
  rcases Scopes.binds_writeAll binds with ⟨parameter, member⟩ | binds
  · exact (isData _ (List.of_mem_zip member).2).elim
  · exact tidy.declared (Scopes.binds_push binds)

/-- The entries of a state are loaded as data. -/
theorem isData_loadGlobals (initial : State) :
    (∀ {name : String} {value : Value},
      (loadGlobals initial).1[name]? = some value → value.IsData) ∧
      (loadGlobals initial).2.HoldsData := by
  unfold loadGlobals
  rw [Std.ExtTreeMap.foldl_eq_foldl_toList]
  apply List.foldlRecOn (motive := fun loaded : Bindings × Store =>
    (∀ {name : String} {value : Value}, loaded.1[name]? = some value → value.IsData) ∧
      loaded.2.HoldsData)
  · exact ⟨fun found => by simp at found, Store.holdsData_empty⟩
  · rintro ⟨globals, store⟩ ⟨globalsData, storeData⟩ ⟨name, value⟩ _
    obtain ⟨storeData, isData⟩ := storeData.load 1 value
    refine ⟨fun {other found} isFound => ?_, storeData⟩
    rcases Scopes.eq_or_found_of_insert isFound with rfl | wasFound
    · exact isData
    · exact globalsData wasFound

/-- A run starts with data only. -/
theorem tidy_ofState (initial : State) : (ofState initial).Tidy := by
  refine ⟨fun {declaration} binds => ?_, (isData_loadGlobals initial).2⟩
  rcases binds with ⟨name, found⟩ | ⟨frame, member, _⟩
  · exact ((isData_loadGlobals initial).1 found).elim
  · cases member

end Machine

/-- A name that is read stands for data. -/
theorem Run.isData_of_readName {settings : Settings} {name : String} {before after : Machine}
    {value : Value} (found : readName settings name before = .ok value after) : value.IsData := by
  have binding : Ensures (readBinding name) before (fun value _ => value.IsData)
      fun _ _ => True := by
    apply ensures_get
    split
    · trivial
    · next bound notFunction _ =>
        show bound.IsData
        cases bound with
        | function declaration => exact notFunction declaration rfl
        | integer | array => trivial
    · trivial
  have ends : Ensures (readName settings name) before (fun value _ => value.IsData)
      fun _ _ => True := by
    unfold readName
    split
    · split
      · trivial
      · exact binding
    · exact binding
  exact ends.of_ok found

/-- Evaluation of nodes that introduce nothing under the name of returned values,
from machines where that name is not bound.  Only returning binds it, in the
innermost frame. -/
def keepingReturnsApart (settings : Settings) : Discipline settings where
  Admits node := ¬ node.Mentions returnName
  Inv machine := machine.Tidy ∧ machine.scopes.read returnName = none
  Good _ value := value.IsData
  ExprStep before after := before.scopes.KeepsNames after.scopes
  ExecStep before flow after := before.scopes.KeepsCallers after.scopes ∧
    ∀ value, flow = .returned value →
      value.IsData ∧ after.Tidy ∧ after.scopes.read returnName = some value
  Halts _ _ _ := True
  admits_part isPart admits mentions := admits (mentions.of_part isPart)
  integer _ _ := trivial
  stable _ isData := isData
  refl := (keepingFrames settings).refl
  trans := (keepingFrames settings).trans
  proceed machine := ⟨.refl machine.scopes, fun _ returned => by cases returned⟩
  exprThen step next := ⟨step.keepsCallers.trans next.1, next.2⟩
  execThen step next := ⟨step.1.trans next.1, next.2⟩
  exprHalts _ _ := trivial
  execHalts _ _ := trivial
  fail _ _ := trivial
  outOfFuel _ := trivial
  tick inv := by
    refine Conduct.ends_of_changes (changes_tick settings) (haltsOrdinarily_tick settings) ?_
      fun _ _ => trivial
    rintro _ _ _ rfl
    exact ⟨⟨inv.1.changeStore rfl inv.1.data, inv.2⟩, .refl _, trivial⟩
  readName name before inv := by
    refine Conduct.ends_of_changes (changes_readName settings name)
      (haltsOrdinarily_readName settings name) ?_ fun _ _ => trivial
    intro value after found changed
    have isData := isData_of_readName found
    rw [changed]
    exact ⟨⟨inv.1.changeStore rfl inv.1.data, inv.2⟩, .refl _, isData⟩
  readSlot index _ inv _ := inv.1.data.read _ index
  writeSlot location index _ _ inv _ isData := by
    refine Conduct.ends_of_changes (changes_writeSlot settings location index _)
      (haltsOrdinarily_writeSlot settings location index _) ?_ fun _ _ => trivial
    intro _ after written _
    obtain ⟨copy, store, copied, rfl⟩ := exists_copy_of_writeSlot written
    obtain ⟨data, copyData⟩ := Store.copyingData.copyInRoom inv.1.data isData copied
    exact ⟨⟨inv.1.changeStore rfl (data.write _ _ copyData), inv.2⟩, .refl _, trivial⟩
  Filling _ _ slots _ := slots.HoldData
  startFilling _ := Slots.holdData_empty
  keepFilling _ slotsData := slotsData
  fill inv slotsData isData := by
    refine Conduct.ends_of_changes (changes_copyAt 2 _) (haltsOrdinarily_copyAt 2 _) ?_
      fun _ _ => trivial
    intro _ after copied _
    obtain ⟨store, copies, rfl⟩ := exists_store_of_copyAt copied
    obtain ⟨data, copyData⟩ := Store.copyingData.copyInRoom inv.1.data isData copies
    exact ⟨⟨inv.1.changeStore rfl data, inv.2⟩, .refl _, slotsData.insert _ copyData⟩
  makeArray _ inv step slotsData :=
    ⟨⟨inv.1.changeStore rfl (inv.1.data.allocate 1 slotsData), inv.2⟩, step, trivial⟩
  assign {name expr before value} admits inv isData := by
    have different : returnName ≠ name := fun same =>
      admits ⟨_, .refl, same.symm⟩
    refine ⟨⟨Scopes.keepsCallers_write _ _ _, nofun⟩, inv.1.write name isData, ?_⟩
    exact (Scopes.read_write_of_ne _ different value).trans inv.2
  declare {name parameters body before} admits inv := by
    have different : returnName ≠ name := fun same =>
      admits ⟨_, .refl, .inl same.symm⟩
    refine ⟨⟨Scopes.keepsCallers_write _ _ _, nofun⟩, inv.1.declare admits, ?_⟩
    exact (Scopes.read_write_of_ne _ different _).trans inv.2
  giveBack {before value} inv isData := by
    refine ⟨Scopes.keepsCallers_write _ _ _, ?_⟩
    rintro _ ⟨⟩
    exact ⟨isData, inv.1.write returnName isData, Scopes.read_write_of_read_eq_none inv.2 value⟩
  declared inv bound := inv.1.declared (Scopes.binds_of_read bound)
  enter {name declaration values before} inv admits isData := by
    refine ⟨inv.1.enter name declaration isData, ?_⟩
    have different : ∀ binding ∈ declaration.parameters.zip values, returnName ≠ binding.1 := by
      intro binding member same
      have isParameter := (List.of_mem_zip member).1
      rw [← same] at isParameter
      exact admits ⟨_, .refl, .inr isParameter⟩
    exact (Scopes.read_writeAll_of_ne _ different).trans
      ((Scopes.read_push before.scopes returnName).trans inv.2)
  enterHalts _ _ := trivial
  leave {name declaration values before ended flow} inv step endedInv := by
    have keeps := (before.keepsCallers_enter name declaration values).trans step.1
    have known : ((ended.scopes.read returnName).getD (.integer 0)).IsData ∧ ended.Tidy := by
      cases flow with
      | proceed =>
          rw [(endedInv rfl).2]
          exact ⟨trivial, (endedInv rfl).1⟩
      | returned value =>
          obtain ⟨isData, tidy, found⟩ := step.2 value rfl
          rw [found]
          exact ⟨isData, tidy⟩
    obtain ⟨popped, names⟩ := keeps.pop
    rw [Ensures, leaveCall_of_keepsCallers name _ keeps]
    refine ⟨⟨⟨fun binds => ?_, known.2.data⟩, names.read_eq_none inv.2⟩, names, known.1⟩
    exact known.2.declared (Scopes.binds_of_pop? popped binds)

/-! ## Calls -/

/-- A call that succeeds counts itself, finds the function, evaluates the
arguments, enters, executes the body and leaves. -/
theorem exists_activation_of_call {settings : Settings} {name : String} {arguments : List Expr}
    {depth : Nat} {machine after : Machine} {value : Value}
    (evaluated : evalExpr settings (depth + 1) (.call name arguments) machine =
      .ok value after) :
    ∃ (declaration : FunctionDeclaration) (values : List Value) (given : Machine) (flow : Flow)
      (ended : Machine),
      Visit.Begins settings ⟨.expr (.call name arguments), depth + 1, machine⟩
        ⟨.block declaration.body, depth, given.enter name declaration values⟩ ∧
      execBlock settings depth declaration.body (given.enter name declaration values) =
        .ok flow ended ∧
      leaveCall name given.scopes.depth ended = .ok value after := by
  have sequence : (do
      tick settings
      evalCall settings (evalExpr settings depth) (execBlock settings depth) name arguments :
        Run Value) machine = .ok value after := evaluated
  obtain ⟨_, counted, counts, calls⟩ := bind_eq_ok_iff.mp sequence
  obtain ⟨declaration, found, finds, evaluates⟩ := bind_eq_ok_iff.mp calls
  have same := (changes_callee name arguments.length counted).1
  rw [final_of_ok finds] at same
  subst same
  obtain ⟨values, given, gives, continues⟩ := bind_eq_ok_iff.mp evaluates
  obtain ⟨_, entered, enters, executes⟩ := bind_eq_ok_iff.mp continues
  obtain ⟨rfl, rfl⟩ := eq_enter_of_enterCall enters
  obtain ⟨flow, ended, executed, leaves⟩ := bind_eq_ok_iff.mp executes
  exact ⟨declaration, values, given, flow, ended, .intro counts (.called finds gives enters),
    executed, leaves⟩

/-- A call gives what a return of its activation returned, or zero. -/
theorem result_of_call {settings : Settings} {name : String} {arguments : List Expr}
    {depth : Nat} {machine after : Machine} {value : Value}
    (admits : ¬ (Node.expr (.call name arguments)).Mentions returnName)
    (inv : (keepingReturnsApart settings).Inv machine)
    (evaluated : evalExpr settings (depth + 1) (.call name arguments) machine =
      .ok value after) :
    ∃ body entered ended,
      Visit.Begins settings ⟨.expr (.call name arguments), depth + 1, machine⟩
        ⟨.block body, depth, entered⟩ ∧
      (Visit.Returns settings ⟨.block body, depth, entered⟩ value ended ∨
        execBlock settings depth body entered = .ok .proceed ended ∧ value = .integer 0) ∧
      ∀ result other, Visit.Returns settings ⟨.block body, depth, entered⟩ result other →
        result = value := by
  obtain ⟨declaration, values, given, flow, ended, begins, executed, leaves⟩ :=
    exists_activation_of_call evaluated
  obtain ⟨bodyAdmits, enteredInv⟩ := (keepingReturnsApart settings).of_begins begins admits inv
  have executes := ((keepingReturnsApart settings).meets_atFuel depth).execute
    (.block declaration.body) trivial bodyAdmits enteredInv
  obtain ⟨⟨kept, returned⟩, endedInv⟩ := executes.of_ok executed
  have keeps := (given.keepsCallers_enter name declaration values).trans kept
  have isExecuted : (Visit.mk (.block declaration.body) depth
    (given.enter name declaration values)).node.IsExecuted := trivial
  rw [leaveCall_of_keepsCallers name _ keeps] at leaves
  refine ⟨declaration.body, given.enter name declaration values, ended, begins, ?_⟩
  cases flow with
  | returned result =>
      obtain ⟨_, _, found⟩ := returned result rfl
      rw [found] at leaves
      cases leaves
      refine ⟨.inl ((Visit.execute_eq_returned_iff isExecuted).mp executed), ?_⟩
      intro other machine returns
      cases executed.symm.trans ((Visit.execute_eq_returned_iff isExecuted).mpr returns)
      rfl
  | proceed =>
      rw [(endedInv rfl).2] at leaves
      cases leaves
      refine ⟨.inr ⟨executed, rfl⟩, ?_⟩
      intro other machine returns
      cases executed.symm.trans ((Visit.execute_eq_returned_iff isExecuted).mpr returns)

/-! ## Runs -/

/-- Data has a state value. -/
theorem Store.isSome_stateValue {store : Store} {value : Value} (isData : value.IsData) :
    (store.stateValue value).isSome := by
  unfold stateValue
  cases value with
  | function => exact isData.elim
  | integer => cases store.cells.size <;> rfl
  | array => cases store.cells.size <;> rfl

namespace Program

variable {features : FeatureSet} {source : String} {program : Program} {initial : State}

/-- A run starts with the name of returned values unbound. -/
theorem inv_ofState (settings : Settings) (absent : returnName ∉ initial) :
    (keepingReturnsApart settings).Inv (Machine.ofState initial) := by
  refine ⟨Machine.tidy_ofState initial, Scopes.read_eq_none_iff.mpr ⟨?_, fun _ member => ?_⟩⟩
  · exact fun isGlobal => absent (Machine.mem_globals_ofState.mp isGlobal)
  · cases member

/-- The state that a run ends with has a returned value exactly if the run was
ended by a return of its own. -/
theorem returnName_mem_globalState_iff {settings : Settings} {depth : Nat} {block : Block}
    {flow : Flow} {ended : Machine} (admits : ¬ (Node.block block).Mentions returnName)
    (absent : returnName ∉ initial)
    (executed : execBlock settings depth block (Machine.ofState initial) = .ok flow ended) :
    returnName ∈ ended.globalState ↔ ∃ value, flow = .returned value := by
  have executes := ((keepingReturnsApart settings).meets_atFuel depth).execute (.block block)
    trivial admits (inv_ofState settings absent)
  obtain ⟨⟨kept, returned⟩, endedInv⟩ := executes.of_ok executed
  constructor
  · intro member
    cases flow with
    | returned value => exact ⟨value, rfl⟩
    | proceed =>
        have isGlobal := Machine.mem_globals_of_mem_globalState member
        exact absurd isGlobal (Scopes.read_eq_none_iff.mp (endedInv rfl).2).1
  · rintro ⟨value, rfl⟩
    obtain ⟨isData, _, found⟩ := returned value rfl
    have noFrames : ended.scopes.frames = [] := List.eq_nil_of_length_eq_zero kept.depth
    have isGlobal : ended.scopes.globals[returnName]? = some value := by
      rw [Scopes.read, noFrames] at found
      exact found
    rw [Machine.globalState, Std.ExtTreeMap.mem_iff_isSome_getElem?,
      Std.ExtTreeMap.getElem?_filterMap', isGlobal]
    exact Store.isSome_stateValue isData

/-- Returned values do not leak between activations.  In every run of a program
that is compiled with functions, against a state without a returned value: every
call that succeeds gives what a return statement of its own activation returned,
or zero if its body was executed to the end, and the final state has a returned
value exactly if the run was ended by a return statement outside of calls. -/
theorem calls_give_own_returns (compiled : compile features source = .ok program)
    (allowed : .function ∈ features) (absent : returnName ∉ initial) (fuel : Nat)
    (limits : Limits) (random : RandomSource) :
    (∀ name arguments depth machine value after,
      program.Visits fuel initial limits random
        ⟨.expr (.call name arguments), depth + 1, machine⟩ →
      evalExpr (program.settings limits random) (depth + 1) (.call name arguments) machine =
        .ok value after →
      ∃ body entered ended,
        Visit.Begins (program.settings limits random)
          ⟨.expr (.call name arguments), depth + 1, machine⟩ ⟨.block body, depth, entered⟩ ∧
        (Visit.Returns (program.settings limits random) ⟨.block body, depth, entered⟩ value
            ended ∨
          execBlock (program.settings limits random) depth body entered = .ok .proceed ended ∧
            value = .integer 0) ∧
        ∀ result other, Visit.Returns (program.settings limits random)
          ⟨.block body, depth, entered⟩ result other → result = value) ∧
    ∀ state returned,
      (program.runWithFuel fuel initial limits random).ending = .finished state returned →
      (returnName ∈ state ↔ ∃ value ended, (program.visit fuel initial).Returns
        (program.settings limits random) value ended) := by
  have admits := not_mentions_returnName compiled allowed
  constructor
  · intro name arguments depth machine value after visits evaluated
    obtain ⟨callAdmits, inv⟩ := (keepingReturnsApart (program.settings limits random)).of_makes
      visits admits (inv_ofState _ absent)
    exact result_of_call callAdmits inv evaluated
  · intro state returned isFinished
    obtain ⟨flow, ended, executed, rfl, _⟩ := ending_eq_finished_iff.mp isFinished
    rw [returnName_mem_globalState_iff admits absent executed]
    have isExecuted : (program.visit fuel initial).node.IsExecuted := trivial
    constructor
    · rintro ⟨value, rfl⟩
      exact ⟨value, ended, (Visit.execute_eq_returned_iff isExecuted).mp executed⟩
    · rintro ⟨value, other, returns⟩
      cases executed.symm.trans ((Visit.execute_eq_returned_iff isExecuted).mpr returns)
      exact ⟨value, rfl⟩

/-- A function that returns in the innermost of its calls only; it is called from
an assignment and from a return. -/
def returnInnermost : Program where
  features := FeatureSet.all
  body := [.declare "f" ["n"] [
      .choose [.mk (.binary .lessEqual (.name "n") (.integer 0)) [.giveBack (.integer 7)]] [],
      .evaluate (.call "f" [.binary .subtract (.name "n") (.integer 1)])],
    .assign "a" (.call "f" [.integer 2]), .giveBack (.call "f" [.integer 0])]

theorem calls_give_own_returns_returnInnermost :
    let settings := returnInnermost.settings Limits.default fun _ => 0
    let state : State := ((∅ : State).insert "a" (.integer 0)).insert "return" (.integer 7)
    (∃ machine after body entered ended,
      returnInnermost.Visits 20 ∅ Limits.default (fun _ => 0)
        ⟨.expr (.call "f" [.integer 2]), 18, machine⟩ ∧
      evalExpr settings 18 (.call "f" [.integer 2]) machine = .ok (.integer 0) after ∧
      Visit.Begins settings ⟨.expr (.call "f" [.integer 2]), 18, machine⟩
        ⟨.block body, 17, entered⟩ ∧
      (Visit.Returns settings ⟨.block body, 17, entered⟩ (.integer 0) ended ∨
        execBlock settings 17 body entered = .ok .proceed ended)) ∧
    (returnInnermost.runWithFuel 20 ∅ Limits.default fun _ => 0).ending =
      .finished state true ∧
    ∃ value ended, (returnInnermost.visit 20 ∅).Returns settings value ended := by
  intro settings state
  have compiled : compile FeatureSet.all
      "func f(n) \x7b\nif n <= 0 \x7b return 7 \x7d\nf(n - 1)\n\x7d\na = f(2)\nreturn f(0)" =
        .ok returnInnermost := by decide +kernel
  have absent : returnName ∉ (∅ : State) := by decide +kernel
  obtain ⟨calls, final⟩ := calls_give_own_returns compiled (by decide) absent 20 Limits.default
    fun _ => 0
  have finished : (returnInnermost.runWithFuel 20 ∅ Limits.default fun _ => 0).ending =
      .finished state true := by decide +kernel
  refine ⟨?_, finished, (final state true finished).mp (by decide +kernel)⟩
  -- The assignment is taken up after the declaration, and takes up the call.
  have assigns : Visit.Begins settings (returnInnermost.visit 20 ∅)
      ⟨.statement (.assign "a" (.call "f" [.integer 2])), 19, _⟩ :=
    .intro rfl (@Opens.statement _ _ [_] _ _ _ _ rfl)
  have visited : ∃ machine after, returnInnermost.Visits 20 ∅ Limits.default (fun _ => 0)
        ⟨.expr (.call "f" [.integer 2]), 18, machine⟩ ∧
      evalExpr settings 18 (.call "f" [.integer 2]) machine = .ok (.integer 0) after :=
    ⟨_, _, .tail (.single assigns) (.intro rfl (.assigned _ _ _)), rfl⟩
  obtain ⟨machine, after, visits, evaluated⟩ := visited
  obtain ⟨body, entered, ended, begins, returns, _⟩ := calls _ _ _ _ _ _ visits evaluated
  exact ⟨machine, after, body, entered, ended, visits, evaluated, begins,
    returns.imp_right And.left⟩

end Program

end Scriptlet
