import Scriptlet.Program.Run

/-!
Contract: running one program many times, with state carried from run to run.
-/

namespace Scriptlet

/-- A run that is asked for. -/
structure RunRequest where
  initial : State
  /-- Whether to start from the state that the last successful run ended with. -/
  carry : Bool
  limits : Limits
  random : RandomSource

namespace RunRequest

/-- The state a run starts from, when `carried` is the state carried so far. -/
def startState (request : RunRequest) (carried : State) : State :=
  if request.carry then carried.overlay request.initial else request.initial

end RunRequest

namespace Report

/-- The state carried on from a run: what it ended with, or what was carried
before if it failed. -/
def carriedState (report : Report) (carried : State) : State :=
  match report.ending with
  | .finished state _ => state
  | _ => carried

end Report

namespace Program

/-- Runs a program once for each request, in order, from a carried state. -/
def runAll (program : Program) (carried : State) : List RunRequest → List Report
  | [] => []
  | request :: rest =>
      let report := program.run (request.startState carried) request.limits request.random
      report :: program.runAll (report.carriedState carried) rest

end Program

end Scriptlet
