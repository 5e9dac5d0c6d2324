/-!
Contract: reading a step count from the command line.

A count is a decimal 64-bit integer with an optional sign.  Characters are read
from left to right and the first one that cannot stand decides the error: a
character that is no digit, or a digit that leaves the range.
-/

namespace Scriptlet

/-- Why a text is not a step count. -/
inductive StepCountError where
  | empty
  | invalidDigit
  | tooLarge
  | tooSmall
deriving DecidableEq, Repr

namespace StepCountError

def message : StepCountError → String
  | .empty => "cannot parse integer from empty string"
  | .invalidDigit => "invalid digit found in string"
  | .tooLarge => "number too large to fit in target type"
  | .tooSmall => "number too small to fit in target type"

end StepCountError

namespace StepCount

/-- Value of a digit. -/
def digitValue (digit : Char) : Int :=
  Int.ofNat (digit.toNat - '0'.toNat)

/-- Reads digits upwards from `value`. -/
def readUp (value : Int) : List Char → Except StepCountError Int
  | [] => .ok value
  | digit :: rest =>
      if digit.isDigit then
        let next := value * 10 + digitValue digit
        if next ≤ Int64.maxValue.toInt then readUp next rest else .error .tooLarge
      else
        .error .invalidDigit

/-- Reads digits downwards from `value`. -/
def readDown (value : Int) : List Char → Except StepCountError Int
  | [] => .ok value
  | digit :: rest =>
      if digit.isDigit then
        let next := value * 10 - digitValue digit
        if Int64.minValue.toInt ≤ next then readDown next rest else .error .tooSmall
      else
        .error .invalidDigit

/-- Reads the digits after a sign, of which there is at least one. -/
def readAfterSign (read : List Char → Except StepCountError Int) (digits : List Char) :
    Except StepCountError Int :=
  if digits.isEmpty then .error .invalidDigit else read digits

/-- Reads a step count. -/
def parse (text : String) : Except StepCountError Int64 :=
  let read : Except StepCountError Int :=
    match text.toList with
    | [] => .error .empty
    | '+' :: digits => readAfterSign (readUp 0) digits
    | '-' :: digits => readAfterSign (readDown 0) digits
    | digits => readUp 0 digits
  read.map Int64.ofInt

end StepCount

end Scriptlet
