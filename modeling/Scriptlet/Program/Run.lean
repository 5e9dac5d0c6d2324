import Scriptlet.Program
import Scriptlet.Run.Eval

/-!
Contract: running a compiled program against a state.

Owns:
- the machine a run starts in, and the state it ends with;
- the report of a run: how it ended, and what it counted and logged;
- the fuel that a run under given limits is made with.

The final state holds the global names that are bound to values; functions are
left out.
-/

namespace Scriptlet

/-- How a run ended. -/
inductive Ending where
  /-- The program ran to its end, or returned at its top level. -/
  | finished (state : State) (returned : Bool)
  | failed (error : RunError)
  /-- Evaluation was nested deeper than the fuel. -/
  | outOfFuel
deriving DecidableEq

/-- How a run ended, the steps it counted, the draws it made and the calls it
entered and left. -/
structure Report where
  ending : Ending
  steps : Nat
  draws : Nat
  calls : List CallEvent

namespace Machine

/-- Loads the entries of a state as global bindings. -/
def loadGlobals (initial : State) : Bindings × Store :=
  initial.foldl (fun (globals, store) name value =>
    let (loaded, store) := store.load 1 value
    (globals.insert name loaded, store)) (∅, Store.empty)

/-- The machine that a run against a state starts in. -/
def ofState (initial : State) : Machine :=
  let (globals, store) := loadGlobals initial
  { scopes := .ofGlobals globals, store := store, steps := 0, draws := 0, calls := #[] }

/-- The global names that are bound to values. -/
def globalState (machine : Machine) : State :=
  machine.scopes.globals.filterMap fun _ value => machine.store.stateValue value

end Machine

namespace Limits

/-- Fuel for a run.  Under a step budget it covers every run: evaluations that
nest count a step each, and a turn of a loop counts one too.  Without a budget
it is a nesting no run comes to in practice. -/
def fuel (limits : Limits) : Nat :=
  match limits.maxSteps with
  | some budget => 2 * budget + 3
  | none => 4611686018427387904

end Limits

namespace Program

/-- What a program is run under: the draws of `rand` exist only with that
feature. -/
def settings (program : Program) (limits : Limits) (random : RandomSource) : Settings where
  limits := limits
  random := if .randomVariable ∈ program.features then some random else none

/-- Runs a program with an amount of fuel. -/
def runWithFuel (program : Program) (fuel : Nat) (initial : State) (limits : Limits)
    (random : RandomSource) : Report :=
  match (execBlock (program.settings limits random) fuel program.body).run
      (Machine.ofState initial) with
  | .ok flow machine =>
      { ending := .finished machine.globalState flow.isReturned
        steps := machine.steps, draws := machine.draws, calls := machine.calls.toList }
  | .error halt machine =>
      { ending := match halt with
          | .failed error => .failed error
          | .outOfFuel => .outOfFuel
        steps := machine.steps, draws := machine.draws, calls := machine.calls.toList }

/-- Runs a program. -/
def run (program : Program) (initial : State) (limits : Limits) (random : RandomSource) :
    Report :=
  program.runWithFuel limits.fuel initial limits random

end Program

end Scriptlet
