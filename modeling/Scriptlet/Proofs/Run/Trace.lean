import Scriptlet.Program.Trace
import Scriptlet.Proofs.Run.Nesting

/-!
Contract: the log of a run tells how far the run came.

Owns:
- full logs: nested calls between the start of a run and its end, which counts no more
  steps than the budget;
- the log of a run is the start of a full log, and is full exactly if the run finished;
- the levels of a log: calls are at the finer one, by their messages, and the run as a
  whole is at the other.
-/

namespace Scriptlet

/-- The events at the finer level are those with the messages of calls. -/
theorem TraceEvent.level_eq_trace_iff (event : TraceEvent) :
    event.level = .trace ↔
      event.message = "entering function" ∨ event.message = "leaving function" := by
  cases event with
  | call event => cases event <;> simp [level, message]
  | _ => simp [level, message]

namespace Program

/-- Logs of a run from its start to its end. -/
inductive FullLog (program : Program) (initial : State) (limits : Limits) :
    List TraceEvent → Prop where
  | intro {calls : List CallEvent} (steps names : Nat) (returned : Bool)
      (nested : Nested limits.maxCallDepth 0 calls)
      (within : ∀ budget, limits.maxSteps = some budget → steps ≤ budget) :
      FullLog program initial limits
        ([.compiled program.body.length program.features,
            .started initial.size limits.maxSteps] ++
          calls.map .call ++ [.finished steps returned, .completed names])

section

variable (program : Program) (initial : State) (limits : Limits) (report : Report)

/-- The end of a run is logged exactly if the run finished, with the size of its final
state. -/
theorem completed_mem_trace_iff {names : Nat} :
    .completed names ∈ program.trace initial limits report ↔
      ∃ state returned, report.ending = .finished state returned ∧ state.size = names := by
  have isClosing : .completed names ∈ program.trace initial limits report ↔
      .completed names ∈ report.closingEvents := by
    simp [trace]
  rw [isClosing]
  unfold Report.closingEvents
  split
  · next state returned finished =>
      rw [finished]
      constructor
      · intro member
        have isSize : TraceEvent.completed names = .completed state.size := by simpa using member
        cases isSize
        exact ⟨state, returned, rfl, rfl⟩
      · rintro ⟨_, _, same, rfl⟩
        cases same
        simp
  · next unfinished =>
      constructor
      · nofun
      · rintro ⟨state, returned, finished, _⟩
        exact absurd finished (unfinished state returned)

/-- Without the calls, a log has the start of the run and what closes it. -/
theorem filter_debug_trace :
    (program.trace initial limits report).filter (·.level = .debug) =
      [.compiled program.body.length program.features, .started initial.size limits.maxSteps] ++
        report.closingEvents := by
  have noCalls : (report.calls.map TraceEvent.call).filter (·.level = .debug) = [] := by
    rw [List.filter_eq_nil_iff]
    intro event member
    obtain ⟨call, _, rfl⟩ := List.mem_map.mp member
    exact of_decide_eq_false rfl
  have closing : report.closingEvents.filter (·.level = .debug) = report.closingEvents := by
    unfold Report.closingEvents
    split <;> rfl
  rw [trace, List.filter_append, List.filter_append, noCalls, closing, List.append_nil]
  rfl

end

variable (program : Program) (fuel : Nat) (initial : State) (limits : Limits)
  (random : RandomSource)

/-- A run that finishes counted no more steps than its budget. -/
theorem steps_le_of_finished {state : State} {returned : Bool}
    (finished : (program.runWithFuel fuel initial limits random).ending =
      .finished state returned) {budget : Nat} (bounded : limits.maxSteps = some budget) :
    (program.runWithFuel fuel initial limits random).steps ≤ budget := by
  rcases program.steps_le_budget_or_exceeded initial random bounded fuel with
    within | ⟨exceeded, _⟩
  · exact within
  · rw [finished] at exceeded
    cases exceeded

/-- The log of a run is full exactly if the run finished. -/
theorem fullLog_trace_iff :
    program.FullLog initial limits
        (program.trace initial limits (program.runWithFuel fuel initial limits random)) ↔
      ∃ state returned, (program.runWithFuel fuel initial limits random).ending =
        .finished state returned := by
  constructor
  · generalize isLog : program.trace initial limits _ = log
    rintro ⟨steps, names, returned, _, _⟩
    have completed : .completed names ∈ program.trace initial limits
        (program.runWithFuel fuel initial limits random) := by
      rw [isLog]
      simp
    obtain ⟨state, returned, finished, _⟩ :=
      (program.completed_mem_trace_iff initial limits _).mp completed
    exact ⟨state, returned, finished⟩
  · rintro ⟨state, returned, finished⟩
    obtain ⟨missing, nested, isWhole⟩ := program.exists_nested_calls fuel initial limits random
    rw [isWhole state returned finished, List.append_nil] at nested
    rw [trace, Report.closingEvents, finished]
    exact .intro _ _ _ nested fun budget =>
      program.steps_le_of_finished fuel initial limits random finished

/-- The log of a run that stopped short is the start of a full log: what is missing are
events of calls and the end. -/
theorem exists_fullLog_of_trace :
    ∃ missing, program.FullLog initial limits
      (program.trace initial limits (program.runWithFuel fuel initial limits random) ++
        missing) := by
  by_cases finishes : ∃ state returned,
      (program.runWithFuel fuel initial limits random).ending = .finished state returned
  · refine ⟨[], ?_⟩
    rw [List.append_nil]
    exact (program.fullLog_trace_iff fuel initial limits random).mpr finishes
  · obtain ⟨missing, nested, _⟩ := program.exists_nested_calls fuel initial limits random
    have noClosing : (program.runWithFuel fuel initial limits random).closingEvents = [] := by
      unfold Report.closingEvents
      split
      · next state returned finished => exact absurd ⟨state, returned, finished⟩ finishes
      · rfl
    have full : program.FullLog initial limits _ :=
      .intro 0 0 false nested fun budget _ => Nat.zero_le budget
    refine ⟨missing.map .call ++ [.finished 0 false, .completed 0], ?_⟩
    rw [List.map_append] at full
    rw [trace, noClosing, List.append_nil]
    simpa only [List.append_assoc] using full

end Program

end Scriptlet
