import Scriptlet.Run.Error
import Scriptlet.Syntax.Operator

/-!
Contract: operators on 64-bit integers.

Addition, subtraction, multiplication and negation wrap around.  Division rounds
to the floor and the remainder has the sign of the divisor; both are corrected
from the quotient and remainder that round towards zero.
-/

namespace Scriptlet

namespace Arithmetic

/-- Quotient rounded to the floor. -/
def floorDivide (left right : Int64) : Except RunError Int64 :=
  if right = 0 then
    .error .divisionByZero
  else if left % right ≠ 0 ∧ (decide (left < 0) != decide (right < 0)) then
    .ok (left / right - 1)
  else
    .ok (left / right)

/-- Remainder of the floored quotient. -/
def floorModulo (left right : Int64) : Except RunError Int64 :=
  if right = 0 then
    .error .divisionByZero
  else
    let remainder := left % right
    if remainder ≠ 0 ∧ (decide (remainder < 0) != decide (right < 0)) then
      .ok (remainder + right)
    else
      .ok remainder

/-- The integer of a truth value. -/
def ofBool (value : Bool) : Int64 :=
  if value then 1 else 0

end Arithmetic

namespace BinaryOperator

open Arithmetic

/-- What an operator gives on integers.  Equality and the operators that may leave
their right operand alone are decided before it comes to integers. -/
def onIntegers : BinaryOperator → Int64 → Int64 → Except RunError Int64
  | .or, _, _ => .error (.internal (.notArithmetic BinaryOperator.or.symbol))
  | .and, _, _ => .error (.internal (.notArithmetic BinaryOperator.and.symbol))
  | .is, _, _ => .error (.internal (.notArithmetic BinaryOperator.is.symbol))
  | .isNot, _, _ => .error (.internal (.notArithmetic BinaryOperator.isNot.symbol))
  | .less, left, right => .ok (ofBool (decide (left < right)))
  | .lessEqual, left, right => .ok (ofBool (decide (left ≤ right)))
  | .greater, left, right => .ok (ofBool (decide (left > right)))
  | .greaterEqual, left, right => .ok (ofBool (decide (left ≥ right)))
  | .add, left, right => .ok (left + right)
  | .subtract, left, right => .ok (left - right)
  | .multiply, left, right => .ok (left * right)
  | .divide, left, right => floorDivide left right
  | .modulo, left, right => floorModulo left right

end BinaryOperator

end Scriptlet
