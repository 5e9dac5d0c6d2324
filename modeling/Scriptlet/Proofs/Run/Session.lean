import Scriptlet.Program.Session
import Scriptlet.Proofs.Run.Boundary

/-!
Contract: what the runs of a session have to do with each other.

Owns:
- the entries of an overlay;
- the state that a session carries after some requests, from which the next run starts;
- a run that does not finish leaves no trace in its session;
- runs that carry nothing are runs by themselves;
- the carried state stays in normal form, and all runs of a session depend on the states
  that are given to it through their normal forms only.
-/

namespace Scriptlet

open StateValue

namespace State

/-- An overlay has the newer entry where there is one. -/
theorem getElem?_overlay (state newer : State) (name : String) :
    (state.overlay newer)[name]? = newer[name]?.or state[name]? := by
  have inserts : state.overlay newer = state.insertMany newer.toList := by
    rw [overlay, Std.ExtTreeMap.foldl_eq_foldl_toList, Std.ExtTreeMap.insertMany_list_eq_foldl]
  rw [inserts]
  cases found : newer[name]? with
  | none =>
      refine Std.ExtTreeMap.getElem?_insertMany_list_of_contains_eq_false ?_
      simpa using found
  | some value =>
      exact Std.ExtTreeMap.getElem?_insertMany_list_of_mem Std.ReflCmp.compare_self
        newer.distinct_keys_toList (Std.ExtTreeMap.mem_toList_iff_getElem?_eq_some.mpr found)

/-- Whether all values of a state are in normal form. -/
def Normal (state : State) : Prop :=
  ∀ {name : String} {value : StateValue}, state[name]? = some value → value.Normal

/-- Whether states have the same names, and the same normal forms under them. -/
def SameNorms (first second : State) : Prop :=
  ∀ name : String, first[name]?.map norm = second[name]?.map norm

theorem SameNorms.overlay {first second newer otherNewer : State}
    (same : first.SameNorms second) (sameNewer : newer.SameNorms otherNewer) :
    (first.overlay newer).SameNorms (second.overlay otherNewer) := by
  intro name
  rw [getElem?_overlay, getElem?_overlay, Option.map_or, Option.map_or, same name, sameNewer name]

end State

namespace RunRequest

/-- Whether requests ask for runs that differ in their initial states only, and there in
zeros at the ends of lists. -/
structure SameNorms (first second : RunRequest) : Prop where
  initial : first.initial.SameNorms second.initial
  carry : first.carry = second.carry
  limits : first.limits = second.limits
  random : first.random = second.random

theorem SameNorms.startState {first second : RunRequest} (same : first.SameNorms second)
    {carried other : State} (sameCarried : carried.SameNorms other) :
    (first.startState carried).SameNorms (second.startState other) := by
  unfold RunRequest.startState
  rw [← same.carry]
  split
  · exact sameCarried.overlay same.initial
  · exact same.initial

end RunRequest

namespace Program

/-- The report of the run that a request asks for, when `carried` is the state carried so
far. -/
def answer (program : Program) (carried : State) (request : RunRequest) : Report :=
  program.run (request.startState carried) request.limits request.random

/-- The state that a session carries after some requests. -/
def carriedAfter (program : Program) (carried : State) : List RunRequest → State
  | [] => carried
  | request :: rest =>
      program.carriedAfter ((program.answer carried request).carriedState carried) rest

variable (program : Program)

theorem runAll_cons (carried : State) (request : RunRequest) (rest : List RunRequest) :
    program.runAll carried (request :: rest) = program.answer carried request ::
      program.runAll ((program.answer carried request).carriedState carried) rest :=
  rfl

theorem length_runAll (carried : State) (requests : List RunRequest) :
    (program.runAll carried requests).length = requests.length := by
  induction requests generalizing carried with
  | nil => rfl
  | cons request rest inductionHypothesis =>
      rw [runAll_cons, List.length_cons, List.length_cons, inductionHypothesis]

/-- A session goes on from the state that it carries. -/
theorem runAll_append (carried : State) (requests later : List RunRequest) :
    program.runAll carried (requests ++ later) =
      program.runAll carried requests ++
        program.runAll (program.carriedAfter carried requests) later := by
  induction requests generalizing carried with
  | nil => rfl
  | cons request rest inductionHypothesis =>
      rw [List.cons_append, runAll_cons, inductionHypothesis]
      rfl

/-- Each report is that of its request, run from what the requests before it carry. -/
theorem getElem?_runAll (carried : State) (requests : List RunRequest) (position : Nat) :
    (program.runAll carried requests)[position]? =
      requests[position]?.map
        (program.answer (program.carriedAfter carried (requests.take position))) := by
  induction requests generalizing carried position with
  | nil => rfl
  | cons request rest inductionHypothesis =>
      cases position with
      | zero => rfl
      | succ position => exact inductionHypothesis _ position

/-- A run that does not finish leaves no trace: without its request, the session has the
other reports as they are. -/
theorem runAll_eraseIdx_of_unfinished (carried : State) {requests later : List RunRequest}
    {request : RunRequest}
    (unfinished : ∀ state returned,
      (program.answer (program.carriedAfter carried requests) request).ending ≠
        .finished state returned) :
    (program.runAll carried (requests ++ request :: later)).eraseIdx requests.length =
      program.runAll carried (requests ++ later) := by
  have kept : (program.answer (program.carriedAfter carried requests) request).carriedState
      (program.carriedAfter carried requests) = program.carriedAfter carried requests := by
    unfold Report.carriedState
    split
    · next state returned finished => exact absurd finished (unfinished state returned)
    · rfl
  rw [runAll_append, runAll_cons, kept, runAll_append,
    List.eraseIdx_append_of_length_le (Nat.le_of_eq (program.length_runAll carried requests)),
    length_runAll, Nat.sub_self, List.eraseIdx_cons_zero]

/-- Runs that carry nothing are the runs from their own initial states. -/
theorem runAll_eq_map_of_not_carry (carried : State) {requests : List RunRequest}
    (alone : ∀ request ∈ requests, request.carry = false) :
    program.runAll carried requests =
      requests.map fun request => program.run request.initial request.limits request.random := by
  induction requests generalizing carried with
  | nil => rfl
  | cons request rest inductionHypothesis =>
      rw [List.forall_mem_cons] at alone
      have ownStart : request.startState carried = request.initial := by
        rw [RunRequest.startState, alone.1]
        rfl
      rw [runAll_cons, inductionHypothesis _ alone.2, answer, ownStart, List.map_cons]

/-! ## Normal forms -/

/-- The state that is carried on from a run is in normal form. -/
theorem normal_carriedState {carried : State} (normal : carried.Normal) (request : RunRequest) :
    ((program.answer carried request).carriedState carried).Normal := by
  intro name value found
  unfold Report.carriedState at found
  split at found
  · next finished => exact normal_of_finished finished found
  · exact normal found

/-- A session that starts from a state in normal form carries such states only. -/
theorem normal_carriedAfter {carried : State} (normal : carried.Normal)
    (requests : List RunRequest) : (program.carriedAfter carried requests).Normal := by
  induction requests generalizing carried with
  | nil => exact normal
  | cons request rest inductionHypothesis =>
      exact inductionHypothesis (program.normal_carriedState normal request)

/-- Zeros at the ends of lists are not observable in any run of a session, whether they
stand in the carried state or in that of a request. -/
theorem runAll_eq_of_sameNorms {carried other : State} {requests others : List RunRequest}
    (sameCarried : carried.SameNorms other)
    (same : List.Forall₂ RunRequest.SameNorms requests others) :
    program.runAll carried requests = program.runAll other others := by
  induction same generalizing carried other with
  | nil => rfl
  | @cons request otherRequest rest otherRest sameRequest _ inductionHypothesis =>
      have sameReport : program.answer carried request = program.answer other otherRequest := by
        rw [answer, answer, sameRequest.limits, sameRequest.random]
        exact program.runWithFuel_eq_of_norms _ _ (sameRequest.startState sameCarried) _
      have sameLater : ((program.answer carried request).carriedState carried).SameNorms
          ((program.answer other otherRequest).carriedState other) := by
        rw [sameReport]
        unfold Report.carriedState
        split
        · exact fun _ => rfl
        · exact sameCarried
      rw [runAll_cons, runAll_cons, inductionHypothesis sameLater, sameReport]

end Program

end Scriptlet
