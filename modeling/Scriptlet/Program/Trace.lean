import Scriptlet.Program.Run

/-!
Contract: the log of compiling and running a program.

A failed run logs nothing after its failure: the calls it was in are not left,
and neither its end nor its result is logged.
-/

namespace Scriptlet

/-- How much detail an event is. -/
inductive TraceLevel where
  | debug
  | trace
deriving DecidableEq, Repr

/-- A logged event. -/
inductive TraceEvent where
  | compiled (statements : Nat) (features : FeatureSet)
  | started (names : Nat) (maxSteps : Option Nat)
  | call (event : CallEvent)
  | finished (steps : Nat) (returned : Bool)
  | completed (names : Nat)
deriving DecidableEq, Repr

namespace TraceEvent

def level : TraceEvent → TraceLevel
  | .call _ => .trace
  | _ => .debug

def message : TraceEvent → String
  | .compiled .. => "compiled program"
  | .started .. => "running program"
  | .call (.entering ..) => "entering function"
  | .call (.leaving ..) => "leaving function"
  | .finished .. => "program finished"
  | .completed .. => "run complete"

end TraceEvent

namespace Report

/-- The events of a run after its calls. -/
def closingEvents (report : Report) : List TraceEvent :=
  match report.ending with
  | .finished state returned => [.finished report.steps returned, .completed state.size]
  | _ => []

end Report

namespace Program

/-- The events of compiling a program and of a run of it from a state. -/
def trace (program : Program) (initial : State) (limits : Limits) (report : Report) :
    List TraceEvent :=
  [.compiled program.body.length program.features, .started initial.size limits.maxSteps] ++
    report.calls.map .call ++ report.closingEvents

end Program

end Scriptlet
