import Scriptlet.Proofs.Run.Activation

/-!
Contract: which names a run makes, and where.

Owns:
- the global names that a run starts with and ends with;
- every global name that an activation outside of calls makes is bound by a
  statement that it executes;
- expressions make no names and change no frame, calls find their own frames
  again, and the names of a final state were there or were bound outside of
  calls.
-/

namespace Scriptlet

open Run

/-! ## Global names at the start and at the end -/

namespace Machine

/-- The names of a state are the global names that a run starts with. -/
theorem mem_globals_ofState {initial : State} {name : String} :
    name ∈ (ofState initial).scopes.globals ↔ name ∈ initial := by
  have loads : ∀ (entries : List (String × StateValue)) (loaded : Bindings × Store),
      name ∈ (entries.foldl (fun loaded entry =>
        (loaded.1.insert entry.1 (loaded.2.load 1 entry.2).1, (loaded.2.load 1 entry.2).2))
          loaded).1 ↔
        name ∈ loaded.1 ∨ name ∈ entries.map Prod.fst := by
    intro entries
    induction entries with
    | nil => simp
    | cons entry rest inductionHypothesis =>
        intro loaded
        rw [List.foldl_cons, inductionHypothesis, Scopes.mem_insert_bindings, List.map_cons,
          List.mem_cons, eq_comm, or_assoc, or_left_comm]
  show name ∈ (loadGlobals initial).1 ↔ name ∈ initial
  unfold loadGlobals
  rw [Std.ExtTreeMap.foldl_eq_foldl_toList]
  refine (loads initial.toList (∅, Store.empty)).trans ?_
  rw [Std.ExtTreeMap.map_fst_toList_eq_keys, Std.ExtTreeMap.mem_keys]
  simp

/-- A name of the state that a run ends with is a global name. -/
theorem mem_globals_of_mem_globalState {machine : Machine} {name : String}
    (member : name ∈ machine.globalState) : name ∈ machine.scopes.globals :=
  Std.ExtTreeMap.mem_of_mem_filterMap member

end Machine

namespace Program

variable {program : Program} {fuel : Nat} {initial : State} {limits : Limits}
  {random : RandomSource}

/-- A run is finished when its block is executed. -/
theorem ending_eq_finished_iff {state : State} {returned : Bool} :
    (program.runWithFuel fuel initial limits random).ending = .finished state returned ↔
      ∃ flow machine, execBlock (program.settings limits random) fuel program.body
          (Machine.ofState initial) = .ok flow machine ∧
        state = machine.globalState ∧ returned = flow.isReturned := by
  unfold runWithFuel EStateM.run
  cases outcome : execBlock (program.settings limits random) fuel program.body
      (Machine.ofState initial) with
  | ok flow machine =>
      constructor
      · intro isFinished
        cases isFinished
        exact ⟨flow, machine, rfl, rfl, rfl⟩
      · rintro ⟨_, _, isOutcome, rfl, rfl⟩
        cases isOutcome
        rfl
  | error halt machine =>
      constructor
      · intro isFinished
        cases halt <;> cases isFinished
      · rintro ⟨_, _, isOutcome, _⟩
        cases isOutcome

/-- A run fails if executing the body does. -/
theorem ending_eq_failed_iff {error : RunError} :
    (program.runWithFuel fuel initial limits random).ending = .failed error ↔
      ∃ machine, execBlock (program.settings limits random) fuel program.body
        (Machine.ofState initial) = .error (.failed error) machine := by
  unfold runWithFuel EStateM.run
  cases outcome : execBlock (program.settings limits random) fuel program.body
      (Machine.ofState initial) with
  | ok flow machine =>
      constructor
      · intro isFailed
        cases isFailed
      · rintro ⟨_, isOutcome⟩
        cases isOutcome
  | error halt machine =>
      constructor
      · intro isFailed
        cases halt with
        | outOfFuel => cases isFailed
        | failed error =>
            cases isFailed
            exact ⟨machine, rfl⟩
      · rintro ⟨_, isOutcome⟩
        cases isOutcome
        rfl

/-- No run fails by a fault of evaluation itself, such as a call that has lost its
frame. -/
theorem ending_ne_internal (fault : InternalFault) :
    (program.runWithFuel fuel initial limits random).ending ≠ .failed (.internal fault) := by
  intro isFailed
  obtain ⟨machine, failed⟩ := ending_eq_failed_iff.mp isFailed
  have isExecuted : (Node.block program.body).IsExecuted := trivial
  exact ordinary_of_execute isExecuted failed fault rfl

end Program

/-! ## Names that an activation makes -/

namespace Visit

/-- Whether an activation executes a statement that binds a name while no call is
active. -/
def BindsOutside (settings : Settings) (activation : Visit) (name : String) : Prop :=
  ∃ (visit : Visit) (flow : Flow) (after : Machine), activation.Executes settings visit ∧
    visit.machine.scopes.depth = 0 ∧ visit.node.bound? = some name ∧
    (Evaluator.atFuel settings visit.fuel).execute visit.node visit.machine = .ok flow after

/-- A statement that binds a name makes no other global name, and none at all
while a call is active. -/
theorem mem_globals_or_bindsOutside {settings : Settings} {activation : Visit} {fuel : Nat}
    {node : Node} {before after : Machine} {flow : Flow} {name other : String}
    (executes : activation.Executes settings ⟨node, fuel, before⟩)
    (bound : node.bound? = some name)
    (executed : (Evaluator.atFuel settings fuel).execute node before = .ok flow after)
    (member : other ∈ after.scopes.globals) :
    other ∈ before.scopes.globals ∨ activation.BindsOutside settings other := by
  by_cases active : before.scopes.depth = 0
  · obtain ⟨value, middle, keeps, rfl⟩ := exists_write_of_bound? bound executed
    have noFrames : middle.scopes.frames = [] :=
      keeps.frames.trans (List.eq_nil_of_length_eq_zero active)
    have inserted : other ∈ middle.scopes.globals.insert name value := by
      obtain ⟨⟨globals, frames⟩, _⟩ := middle
      cases noFrames
      exact member
    rcases Scopes.mem_insert_bindings.mp inserted with rfl | wasThere
    · exact .inr ⟨_, flow, _, executes, active, bound, executed⟩
    · exact .inl ((keeps.globals other).mp wasThere)
  · have keeps := keepsCallers_of_execute (Node.isExecuted_of_bound? bound) executed
    exact .inl ((keeps.globals active other).mp member)

/-- Every global name that an activation makes is bound by a statement that it
executes while no call is active. -/
theorem mem_globals_of_execute {settings : Settings} {activation : Visit} {flow : Flow}
    {after : Machine} (isExecuted : activation.node.IsExecuted)
    (executed : (Evaluator.atFuel settings activation.fuel).execute activation.node
      activation.machine = .ok flow after) {name : String}
    (member : name ∈ after.scopes.globals) :
    name ∈ activation.machine.scopes.globals ∨ activation.BindsOutside settings name := by
  refine Executes.holds (fun before _ after => ∀ name ∈ after.scopes.globals,
    name ∈ before.scopes.globals ∨ activation.BindsOutside settings name) ?_ ?_ ?_ .refl
    isExecuted executed name member
  · exact fun keeps name member => .inl ((keeps.globals name).mp member)
  · intro before middle after flow first rest name member
    rcases rest name member with member | binds
    · exact first name member
    · exact .inr binds
  · intro node name fuel before after flow executes bound executed other member
    exact mem_globals_or_bindsOutside executes bound executed member

end Visit

namespace Program

variable (program : Program) (fuel : Nat) (initial : State) (limits : Limits)
  (random : RandomSource)

/-- Expressions cannot make names or touch frames, in any machine and whatever
calls they make: the frames after an evaluation that succeeds are those before
it, and so is the set of global names.  So a call whose body was executed finds
its own frame on top of the frames of its callers, no run fails for lack of it or
by another fault of evaluation, and every name of a final state was in the initial state or was bound by an
assignment, a declaration or a return that was executed while no call was
active. -/
theorem expressions_keep_names :
    (∀ depth expr before value after,
      evalExpr (program.settings limits random) depth expr before = .ok value after →
      after.scopes.depth = before.scopes.depth ∧ after.scopes.frames = before.scopes.frames ∧
        ∀ name, name ∈ after.scopes.globals ↔ name ∈ before.scopes.globals) ∧
    (∀ depth name declaration values given active entered flow ended,
      enterCall (program.settings limits random) name declaration values given =
        .ok active entered →
      execBlock (program.settings limits random) depth declaration.body entered =
        .ok flow ended →
      ∃ own, ended.scopes.frames = own :: given.scopes.frames ∧
        ∃ value after, leaveCall name active ended = .ok value after ∧
          after.scopes.frames = given.scopes.frames) ∧
    (∀ fault, (program.runWithFuel fuel initial limits random).ending ≠
      .failed (.internal fault)) ∧
    ∀ state returned,
      (program.runWithFuel fuel initial limits random).ending = .finished state returned →
      ∀ name ∈ state, name ∈ initial ∨
        (program.visit fuel initial).BindsOutside (program.settings limits random) name := by
  refine ⟨?_, ?_, fun fault => ending_ne_internal fault, ?_⟩
  · intro depth expr before value after evaluated
    have keeps := keepsNames_of_evalExpr evaluated
    exact ⟨congrArg List.length keeps.frames, keeps.frames, keeps.globals⟩
  · intro depth name declaration values given active entered flow ended enters executed
    obtain ⟨rfl, rfl⟩ := eq_enter_of_enterCall enters
    have isExecuted : (Node.block declaration.body).IsExecuted := trivial
    have keeps := (given.keepsCallers_enter name declaration values).trans
      (keepsCallers_of_execute isExecuted executed)
    obtain ⟨own, isOwn⟩ := keeps.exists_own
    exact ⟨own, isOwn, _, _, leaveCall_of_keepsCallers name _ keeps, rfl⟩
  · intro state returned isFinished name member
    obtain ⟨flow, machine, executed, rfl, _⟩ := ending_eq_finished_iff.mp isFinished
    have isGlobal := Machine.mem_globals_of_mem_globalState member
    have isExecuted : (program.visit fuel initial).node.IsExecuted := trivial
    rcases Visit.mem_globals_of_execute isExecuted executed isGlobal with wasThere | binds
    · exact .inl (Machine.mem_globals_ofState.mp wasThere)
    · exact .inr binds

/-- A call that binds a name of its own frame, writes a global name and
returns. -/
def callWithLocalName : Program where
  features := FeatureSet.all
  body := [.assign "a" (.integer 1),
    .declare "f" ["x"] [.assign "y" (.name "x"),
      .assign "a" (.binary .add (.name "y") (.integer 1)), .giveBack (.name "y")],
    .assign "b" (.call "f" [.integer 3])]

theorem expressions_keep_names_callWithLocalName :
    let settings := callWithLocalName.settings Limits.default fun _ => 0
    let declared := (execBlock settings 9 (callWithLocalName.body.take 2)).final (Machine.ofState ∅)
    let state : State := ((∅ : State).insert "a" (.integer 4)).insert "b" (.integer 3)
    (∃ after, evalExpr settings 9 (.call "f" [.integer 3]) declared = .ok (.integer 3) after ∧
      after.scopes.frames = declared.scopes.frames) ∧
    (callWithLocalName.runWithFuel 9 ∅ Limits.default fun _ => 0).ending =
      .finished state false ∧
    (callWithLocalName.visit 9 ∅).BindsOutside settings "b" := by
  intro settings declared state
  obtain ⟨keeps, _, _, names⟩ :=
    expressions_keep_names callWithLocalName 9 ∅ Limits.default fun _ => 0
  have evaluated : ∃ after, evalExpr settings 9 (.call "f" [.integer 3]) declared =
      .ok (.integer 3) after := ⟨_, rfl⟩
  have finished : (callWithLocalName.runWithFuel 9 ∅ Limits.default fun _ => 0).ending =
      .finished state false := by decide +kernel
  refine ⟨?_, finished, ?_⟩
  · obtain ⟨after, evaluated⟩ := evaluated
    exact ⟨after, evaluated, (keeps _ _ _ _ _ evaluated).2.1⟩
  · rcases names state false finished "b" (by decide +kernel) with isInitial | binds
    · exact absurd isInitial (by decide +kernel)
    · exact binds

end Program

end Scriptlet
