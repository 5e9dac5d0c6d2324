/-!
Contract: the operators of expressions, with their binding levels and spellings.

All binary operators associate to the left.  A higher level binds tighter; the
operator `not` stands at level 2, between `and`/`or` and the comparisons, and a
sign binds tighter than every binary operator.
-/

namespace Scriptlet

/-- An operator on one operand. -/
inductive UnaryOperator where
  | not
  | negate
  | plus
deriving DecidableEq, Repr

/-- An operator on two operands. -/
inductive BinaryOperator where
  | or
  | and
  | is
  | isNot
  | less
  | lessEqual
  | greater
  | greaterEqual
  | add
  | subtract
  | multiply
  | divide
  | modulo
deriving DecidableEq, Repr

/-- Level of the operator `not`. -/
def notLevel : Nat := 2

namespace BinaryOperator

/-- Binding level, from loose to tight. -/
def level : BinaryOperator → Nat
  | .or | .and => 1
  | .is | .isNot | .less | .lessEqual | .greater | .greaterEqual => 3
  | .add | .subtract => 4
  | .multiply | .divide | .modulo => 5

/-- How an operator is written. -/
def symbol : BinaryOperator → String
  | .or => "or"
  | .and => "and"
  | .is => "is"
  | .isNot => "is not"
  | .less => "<"
  | .lessEqual => "<="
  | .greater => ">"
  | .greaterEqual => ">="
  | .add => "+"
  | .subtract => "-"
  | .multiply => "*"
  | .divide => "/"
  | .modulo => "%"

/-- No binary operator stands at the level of `not`. -/
theorem level_ne_notLevel (operator : BinaryOperator) : operator.level ≠ notLevel := by
  cases operator <;> decide

end BinaryOperator

end Scriptlet
