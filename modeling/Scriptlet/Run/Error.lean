/-!
Contract: the failures of running a program, with their messages.
-/

namespace Scriptlet

/-- The type of a value, as messages name it. -/
inductive ValueType where
  | integer
  | array
  | function
deriving DecidableEq, Repr

namespace ValueType

def name : ValueType → String
  | .integer => "integer"
  | .array => "array"
  | .function => "function"

end ValueType

/-- Deepest level an array may stand at inside other arrays; an array outside
of others stands at level 1. -/
def maxArrayNesting : Nat := 256

/-- A state of evaluation that no program leads to. -/
inductive InternalFault where
  /-- A call ended without a frame of its own to leave. -/
  | missingFrame (function : String)
  /-- An operator that is decided before came to be applied to integers. -/
  | notArithmetic (operator : String)
deriving DecidableEq, Repr

namespace InternalFault

def message : InternalFault → String
  | .missingFrame function => "call frame for '" ++ function ++ "' vanished"
  | .notArithmetic operator => "operator '" ++ operator ++ "' reached integer arithmetic"

end InternalFault

/-- A failure of a run.  Every one of them ends the run. -/
inductive RunError where
  | divisionByZero
  | budgetExceeded (budget : Nat)
  | arityMismatch (function : String) (expected found : Nat)
  | callDepthExceeded (limit : Nat)
  | expectedInteger (operation : String) (found : ValueType)
  | expectedArray (found : ValueType)
  | negativeIndex (index : Int64)
  | indexOutOfRange (index : Int64) (limit : Nat)
  | arrayNestingExceeded
  | undefinedFunction (name : String)
  | functionNotAValue (name : String)
  | internal (fault : InternalFault)
deriving DecidableEq, Repr

namespace RunError

/-- Text of a failure. -/
def message : RunError → String
  | .divisionByZero => "Division by zero"
  | .budgetExceeded budget => "Execution budget of " ++ budget.repr ++ " steps exceeded"
  | .arityMismatch function expected found =>
      "Function '" ++ function ++ "' expected " ++ expected.repr ++ " arguments, got " ++
        found.repr
  | .callDepthExceeded limit => "Maximum call depth of " ++ limit.repr ++ " exceeded"
  | .expectedInteger operation found =>
      "Operation '" ++ operation ++ "' expected an integer, got " ++ found.name
  | .expectedArray found => "Indexing expected an array, got " ++ found.name
  | .negativeIndex index => "Array index must be non-negative, got " ++ index.toInt.repr
  | .indexOutOfRange index limit =>
      "Array index " ++ index.toInt.repr ++ " exceeds the maximum of " ++ limit.repr
  | .arrayNestingExceeded =>
      "Array nesting exceeds maximum of " ++ maxArrayNesting.repr ++ " levels"
  | .undefinedFunction name => "Undefined function '" ++ name ++ "'"
  | .functionNotAValue name => "Function '" ++ name ++ "' can only be called, not used as a value"
  | .internal fault => "Internal interpreter error: " ++ fault.message

@[deprecated internal (since := "2026-11-18"), match_pattern]
abbrev missingFrame (fault : InternalFault) : RunError :=
  .internal fault

end RunError

end Scriptlet
