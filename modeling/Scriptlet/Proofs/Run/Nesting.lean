import Scriptlet.Proofs.Run.Budget
import Scriptlet.Proofs.Run.Conduct

/-!
Contract: the calls of a run nest.

Owns:
- call events in which every call that is entered is left again, inside the call
  that was open when it was entered;
- the number of calls that are open after some events, and what an event tells of
  it;
- every evaluation logs such events, or as many of them as were logged before it
  halted.

An activation logs its two events around those of its body.  The depth that an
event tells is read from the frames, so frames are counted along with the events.
-/

namespace Scriptlet

open Run

/-! ## Events that nest -/

namespace CallEvent

/-- The number of active calls that an event tells. -/
def depth : CallEvent → Nat
  | .entering _ depth => depth
  | .leaving _ depth => depth

/-- The number of open calls after an event, from the number before it. -/
def openAfter (openBefore : Nat) : CallEvent → Nat
  | .entering .. => openBefore + 1
  | .leaving .. => openBefore - 1

/-- Whether an event tells the number of open calls: the start of a call counts the
new one, and the end of a call does not count the ended one. -/
def Tells (openBefore : Nat) : CallEvent → Prop
  | .entering _ depth => depth = openBefore + 1
  | .leaving _ depth => depth + 1 = openBefore

end CallEvent

/-- The number of calls that are open after some events. -/
def openCalls (events : List CallEvent) : Nat :=
  events.foldl CallEvent.openAfter 0

/-- Events in which every call that is entered is left again, by an event of the
same function and after everything that was entered inside it. -/
inductive Balanced : List CallEvent → Prop where
  | nil : Balanced []
  | call {inside later : List CallEvent} (name : String) (entered left : Nat) :
      Balanced inside → Balanced later →
      Balanced (.entering name entered :: (inside ++ .leaving name left :: later))

/-- Balanced events that are logged while `depth` calls are open, of which each tells
the number of open calls and none exceeds the limit. -/
inductive Nested (limit : Nat) : Nat → List CallEvent → Prop where
  | nil (depth : Nat) : Nested limit depth []
  | call {depth : Nat} {inside later : List CallEvent} (name : String) (within : depth < limit)
      (inner : Nested limit (depth + 1) inside) (rest : Nested limit depth later) :
      Nested limit depth
        (.entering name (depth + 1) :: (inside ++ .leaving name depth :: later))

namespace Nested

variable {limit depth : Nat} {events later : List CallEvent}

theorem append (nested : Nested limit depth events) (nestedLater : Nested limit depth later) :
    Nested limit depth (events ++ later) := by
  induction nested with
  | nil depth => exact nestedLater
  | call name within inner _ _ restHypothesis =>
      rw [List.cons_append, List.append_assoc, List.cons_append]
      exact .call name within inner (restHypothesis nestedLater)

theorem balanced (nested : Nested limit depth events) : Balanced events := by
  induction nested with
  | nil depth => exact .nil
  | call name within _ _ innerHypothesis restHypothesis =>
      exact .call name _ _ innerHypothesis restHypothesis

/-- Events around nested ones, of the call that they are logged in. -/
theorem around (nested : Nested limit (depth + 1) events) (name : String)
    (within : depth < limit) :
    Nested limit depth (.entering name (depth + 1) :: (events ++ [.leaving name depth])) :=
  .call name within nested (.nil depth)

end Nested

/-- Whether events that are logged while some calls are open each tell the number of
open calls, within a limit. -/
def TellOpenCalls (limit : Nat) : Nat → List CallEvent → Prop
  | _, [] => True
  | openBefore, event :: later => event.Tells openBefore ∧ event.depth ≤ limit ∧
      TellOpenCalls limit (event.openAfter openBefore) later

section

variable {limit openBefore : Nat} {events later : List CallEvent}

theorem Nested.tellOpenCalls (nested : Nested limit openBefore events)
    (tellLater : TellOpenCalls limit openBefore later) :
    TellOpenCalls limit openBefore (events ++ later) := by
  induction nested generalizing later with
  | nil depth => exact tellLater
  | @call depth inside after name within _ _ innerHypothesis restHypothesis =>
      have left : TellOpenCalls limit (depth + 1) (.leaving name depth :: (after ++ later)) :=
        ⟨rfl, Nat.le_of_lt within, restHypothesis tellLater⟩
      rw [List.cons_append, List.append_assoc, List.cons_append]
      exact ⟨rfl, within, innerHypothesis left⟩

theorem TellOpenCalls.left (tell : TellOpenCalls limit openBefore (events ++ later)) :
    TellOpenCalls limit openBefore events := by
  induction events generalizing openBefore with
  | nil => trivial
  | cons event rest inductionHypothesis =>
      obtain ⟨tells, within, tellRest⟩ := tell
      exact ⟨tells, within, inductionHypothesis tellRest⟩

/-- An event tells the number of calls that are open after the events before it. -/
theorem TellOpenCalls.tells {event : CallEvent}
    (tell : TellOpenCalls limit openBefore (events ++ event :: later)) :
    event.Tells (events.foldl CallEvent.openAfter openBefore) ∧ event.depth ≤ limit := by
  induction events generalizing openBefore with
  | nil => exact ⟨tell.1, tell.2.1⟩
  | cons first rest inductionHypothesis => exact inductionHypothesis tell.2.2

end

/-! ## Steps that log nested events -/

namespace Machine

/-- Whether a machine comes to have as many frames and to have logged nested events
besides. -/
structure LogsNested (limit : Nat) (before after : Machine) : Prop where
  depth : after.scopes.depth = before.scopes.depth
  events : ∃ logged, Nested limit before.scopes.depth logged ∧
    after.calls.toList = before.calls.toList ++ logged

/-- Whether a machine comes to have logged the first of some nested events besides. -/
def LogsStart (limit : Nat) (before after : Machine) : Prop :=
  ∃ logged missing, Nested limit before.scopes.depth (logged ++ missing) ∧
    after.calls.toList = before.calls.toList ++ logged

variable {limit : Nat} {first second third : Machine}

/-- A machine with the same frames and events has logged nothing. -/
theorem LogsNested.of_eq (depth : second.scopes.depth = first.scopes.depth)
    (calls : second.calls = first.calls) : first.LogsNested limit second :=
  ⟨depth, [], .nil _, by rw [calls, List.append_nil]⟩

theorem LogsNested.trans (logs : first.LogsNested limit second)
    (next : second.LogsNested limit third) : first.LogsNested limit third := by
  obtain ⟨logged, nested, isLogged⟩ := logs.events
  obtain ⟨later, nestedLater, isLater⟩ := next.events
  rw [logs.depth] at nestedLater
  refine ⟨next.depth.trans logs.depth, logged ++ later, nested.append nestedLater, ?_⟩
  rw [isLater, isLogged, List.append_assoc]

theorem LogsNested.thenStart (logs : first.LogsNested limit second)
    (next : second.LogsStart limit third) : first.LogsStart limit third := by
  obtain ⟨logged, nested, isLogged⟩ := logs.events
  obtain ⟨later, missing, nestedLater, isLater⟩ := next
  rw [logs.depth] at nestedLater
  refine ⟨logged ++ later, missing, ?_, ?_⟩
  · rw [List.append_assoc]
    exact nested.append nestedLater
  · rw [isLater, isLogged, List.append_assoc]

theorem LogsNested.start (logs : first.LogsNested limit second) : first.LogsStart limit second := by
  obtain ⟨logged, nested, isLogged⟩ := logs.events
  exact ⟨logged, [], by rwa [List.append_nil], isLogged⟩

end Machine

/-- Whether a step logs nested events, or the first of some if it halts. -/
def Nests (limit : Nat) {α : Type} (action : Run α) : Prop :=
  ∀ before, Ensures action before (fun _ after => before.LogsNested limit after)
    fun _ after => before.LogsStart limit after

section

variable {limit : Nat} {α β : Type}

theorem nests_pure (result : α) : Nests limit (pure result : Run α) :=
  fun _ => Machine.LogsNested.of_eq rfl rfl

theorem Nests.bind {action : Run α} {next : α → Run β} (nests : Nests limit action)
    (nestsNext : ∀ result, Nests limit (next result)) : Nests limit (action >>= next) := by
  intro before
  refine (nests before).bind fun {result after} logs => ?_
  exact (nestsNext result after).weaken logs.trans logs.thenStart

/-- A step that opens and closes no frame and logs nothing. -/
theorem nests_of_changes {action : Run α} {change : Machine → Machine → Prop}
    (changes : Changes change action)
    (same : ∀ {before after}, change before after →
      after.scopes.depth = before.scopes.depth ∧ after.calls = before.calls) :
    Nests limit action := by
  intro before
  have changed := (changes before).1
  unfold Ensures
  cases outcome : action before with
  | ok result after =>
      rw [final_of_ok outcome] at changed
      exact .of_eq (same changed).1 (same changed).2
  | error halt after =>
      rw [final_of_error outcome] at changed
      exact (Machine.LogsNested.of_eq (same changed).1 (same changed).2).start

end

theorem nests_of_primitive {limit : Nat} {first second : Settings} {α : Type} {left right : Run α}
    (primitive : Primitive first second left right) : Nests limit left := by
  cases primitive with
  | fail error => exact nests_of_changes (changes_fail error) fun same => by simp [same]
  | readName name =>
      apply nests_of_changes (changes_readName first name)
      intro before after same
      rw [same]
      exact ⟨rfl, rfl⟩
  | writeName name value =>
      intro before
      exact Machine.LogsNested.of_eq (Scopes.depth_write _ _ _) rfl
  | readSlot location index =>
      exact nests_of_changes (changes_readSlot location index) fun same => by simp [same]
  | writeSlot location index value =>
      exact nests_of_changes (changes_writeSlot first location index value) fun same => by
        rw [same]; exact ⟨rfl, rfl⟩
  | equal left right =>
      exact nests_of_changes (changes_equal left right) fun same => by simp [same]

/-! ## Calls -/

namespace Machine

variable {limit : Nat} (machine : Machine) (name : String) (declaration : FunctionDeclaration)
  (values : List Value)

theorem depth_enter :
    (machine.enter name declaration values).scopes.depth = machine.scopes.depth + 1 :=
  (Scopes.depth_writeAll _ _).trans (Scopes.depth_push _)

theorem calls_enter :
    (machine.enter name declaration values).calls.toList =
      machine.calls.toList ++ [.entering name (machine.scopes.depth + 1)] :=
  Array.toList_push

variable {machine name declaration values} {ended : Machine}

/-- What a body has logged when it halts is the start of what the call would have. -/
theorem LogsStart.ofBody (within : machine.scopes.depth < limit)
    (logs : (machine.enter name declaration values).LogsStart limit ended) :
    machine.LogsStart limit ended := by
  obtain ⟨logged, missing, nested, isLogged⟩ := logs
  rw [depth_enter] at nested
  rw [calls_enter] at isLogged
  refine ⟨.entering name (machine.scopes.depth + 1) :: logged,
    missing ++ [.leaving name machine.scopes.depth], ?_, ?_⟩
  · rw [List.cons_append, ← List.append_assoc]
    exact nested.around name within
  · rw [isLogged, List.append_assoc]
    rfl

/-- A call is left when its body has logged nested events. -/
theorem LogsNested.leaveCall (within : machine.scopes.depth < limit)
    (logs : (machine.enter name declaration values).LogsNested limit ended) :
    Ensures (leaveCall name machine.scopes.depth) ended
      (fun _ after => machine.LogsNested limit after)
      fun _ _ => False := by
  obtain ⟨sameDepth, logged, nested, isLogged⟩ := logs
  rw [depth_enter] at sameDepth nested
  rw [calls_enter] at isLogged
  obtain ⟨⟨globals, frames⟩, store, steps, draws, calls⟩ := ended
  cases frames with
  | nil => exact absurd sameDepth (Nat.succ_ne_zero _).symm
  | cons own outer =>
      have outerDepth : outer.length = machine.scopes.depth := Nat.succ.inj sameDepth
      refine ⟨outerDepth, _, nested.around name within, ?_⟩
      show (calls.push (.leaving name machine.scopes.depth)).toList = _
      rw [Array.toList_push, isLogged, List.append_assoc, List.append_assoc]
      rfl

end Machine

/-- An activation logs its events around those of its body. -/
theorem nests_activation (settings : Settings) {exec : Run Flow} (name : String)
    (declaration : FunctionDeclaration) (values : List Value)
    (nests : Nests settings.limits.maxCallDepth exec) :
    Nests settings.limits.maxCallDepth (do
      let depth ← enterCall settings name declaration values
      let _ ← exec
      leaveCall name depth) := by
  intro before
  have enters : Ensures (enterCall settings name declaration values) before
      (fun depth after => before.scopes.depth < settings.limits.maxCallDepth ∧
        depth = before.scopes.depth ∧ after = before.enter name declaration values)
      fun _ after => before.LogsStart settings.limits.maxCallDepth after := by
    show Ensures (if settings.limits.maxCallDepth ≤ before.scopes.depth then _ else _) before _ _
    split
    · exact (Machine.LogsNested.of_eq rfl rfl).start
    · next isWithin => exact ⟨Nat.lt_of_not_le isWithin, rfl, rfl⟩
  refine enters.bind fun ⟨within, isDepth, isEntered⟩ => ?_
  subst isDepth isEntered
  refine ((nests _).weaken id (.ofBody within)).bind fun logs => ?_
  exact (logs.leaveCall within).weaken id False.elim

/-- Nesting as a relation that sequencing keeps.  It looks at one side only. -/
def nestingSteps (limit : Nat) : StepRelation where
  Rel action _ := Nests limit action
  value := nests_pure
  bind := Nests.bind

/-- Nesting as a relation that every layer keeps. -/
def nesting (settings : Settings) : RunRelation settings settings where
  toStepRelation := nestingSteps settings.limits.maxCallDepth
  primitive := nests_of_primitive
  array {eval _} nests items := by
    have nests : ∀ expr, (nestingSteps settings.limits.maxCallDepth).Rel (eval expr) (eval expr) :=
      nests
    apply StepRelation.evalArray_of_steps _ nests
    · intro value
      exact nests_of_changes (changes_copyAt 2 value) fun same => by rw [same]; exact ⟨rfl, rfl⟩
    · intro slots
      exact nests_of_changes (changes_newArray slots) fun same => by rw [same]; exact ⟨rfl, rfl⟩
  call {eval _ _ _} nests nestsExec name arguments := by
    have nests : ∀ expr, (nestingSteps settings.limits.maxCallDepth).Rel (eval expr) (eval expr) :=
      nests
    have finds : Nests settings.limits.maxCallDepth (callee name arguments.length) :=
      nests_of_changes (changes_callee name arguments.length) fun same => by simp [same]
    apply finds.bind
    intro declaration
    apply Nests.bind (StepRelation.evalList _ nests arguments)
    intro values
    exact nests_activation settings name declaration values (nestsExec declaration.body)

/-- Executing a block logs nested events, or the first of some if it halts. -/
theorem nests_execBlock (settings : Settings) (fuel : Nat) (block : Block) :
    Nests settings.limits.maxCallDepth (execBlock settings fuel block) := by
  have ticks : Nests settings.limits.maxCallDepth (tick settings) :=
    nests_of_changes (changes_tick settings) fun same => by rw [same]; exact ⟨rfl, rfl⟩
  have givesUp : ∀ {α : Type}, Nests settings.limits.maxCallDepth (throw .outOfFuel : Run α) :=
    fun before => (Machine.LogsNested.of_eq rfl rfl).start
  exact ((nesting settings).agree_atFuel ticks givesUp fuel).block block

/-! ## Runs -/

namespace Program

variable (program : Program) (fuel : Nat) (initial : State) (limits : Limits)
  (random : RandomSource)

/-- The events of a run are the first of some nested events, and all of them if the
run finished. -/
theorem exists_nested_calls :
    ∃ missing, Nested limits.maxCallDepth 0
        ((program.runWithFuel fuel initial limits random).calls ++ missing) ∧
      ∀ state returned,
        (program.runWithFuel fuel initial limits random).ending = .finished state returned →
        missing = [] := by
  have nests := nests_execBlock (program.settings limits random) fuel program.body
    (Machine.ofState initial)
  rw [runWithFuel_eq_execBlock]
  -- The machine that a run starts in has no frames and has logged nothing.
  cases outcome : execBlock (program.settings limits random) fuel program.body
      (Machine.ofState initial) with
  | ok flow after =>
      obtain ⟨logged, nested, isLogged⟩ := (nests.of_ok outcome).events
      have calls : (Report.ofOutcome (.ok flow after)).calls = logged := isLogged
      rw [calls]
      exact ⟨[], by rw [List.append_nil]; exact nested, fun _ _ _ => rfl⟩
  | error halt after =>
      obtain ⟨logged, missing, nested, isLogged⟩ := nests.of_error outcome
      have calls : (Report.ofOutcome (.error halt after)).calls = logged := isLogged
      rw [calls]
      refine ⟨missing, nested, fun state returned isFinished => ?_⟩
      cases halt with
      | failed error => cases isFinished
      | outOfFuel => cases isFinished

/-- The call events of a run nest.  They are balanced when the run finishes and the
first of balanced events in any case.  Each tells the number of open calls, and none
tells more than the limit. -/
theorem call_events_nest :
    (∀ state returned,
      (program.runWithFuel fuel initial limits random).ending = .finished state returned →
      Balanced (program.runWithFuel fuel initial limits random).calls) ∧
    (∃ missing, Balanced ((program.runWithFuel fuel initial limits random).calls ++ missing)) ∧
    ∀ earlier event later,
      (program.runWithFuel fuel initial limits random).calls = earlier ++ event :: later →
      event.Tells (openCalls earlier) ∧ event.depth ≤ limits.maxCallDepth := by
  obtain ⟨missing, nested, isWhole⟩ := program.exists_nested_calls fuel initial limits random
  refine ⟨fun state returned isFinished => ?_, ⟨missing, nested.balanced⟩, ?_⟩
  · have balanced := nested.balanced
    rw [isWhole state returned isFinished, List.append_nil] at balanced
    exact balanced
  · intro earlier event later isCalls
    have nothingLater : TellOpenCalls limits.maxCallDepth 0 [] := trivial
    have tell := nested.tellOpenCalls nothingLater
    rw [List.append_nil] at tell
    have tellCalls := tell.left
    rw [isCalls] at tellCalls
    exact tellCalls.tells

/-- Calls `double`, and then `apply` on what it gave, which calls `double` again. -/
def callsInside : Program where
  features := FeatureSet.all
  body := [
    .declare "double" ["n"] [.giveBack (.binary .add (.name "n") (.name "n"))],
    .declare "apply" ["n"] [.giveBack (.call "double" [.name "n"])],
    .evaluate (.call "apply" [.call "double" [.integer 3]])]

theorem call_events_nest_callsInside :
    Balanced [.entering "double" 1, .leaving "double" 0, .entering "apply" 1,
      .entering "double" 2, .leaving "double" 1, .leaving "apply" 0] ∧
    ∃ missing, Balanced
      ([.entering "double" 1, .leaving "double" 0, .entering "apply" 1] ++ missing) := by
  have whole : (callsInside.runWithFuel 40 ∅ Limits.default fun _ => 0).calls =
      [.entering "double" 1, .leaving "double" 0, .entering "apply" 1,
        .entering "double" 2, .leaving "double" 1, .leaving "apply" 0] := by
    decide +kernel
  have isFinished : (callsInside.runWithFuel 40 ∅ Limits.default fun _ => 0).ending =
      .finished ∅ false := by
    decide +kernel
  -- With one frame only, the call inside `apply` fails.
  have cut : (callsInside.runWithFuel 40 ∅ { Limits.default with maxCallDepth := 1 }
      fun _ => 0).calls =
        [.entering "double" 1, .leaving "double" 0, .entering "apply" 1] := by
    decide +kernel
  rw [← whole, ← cut]
  exact ⟨(call_events_nest callsInside 40 ∅ Limits.default fun _ => 0).1 ∅ false isFinished,
    (call_events_nest callsInside 40 ∅ { Limits.default with maxCallDepth := 1 } fun _ => 0).2.1⟩

end Program

end Scriptlet
