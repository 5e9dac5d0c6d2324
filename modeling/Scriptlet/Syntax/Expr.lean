import Scriptlet.Syntax.Operator

/-!
Contract: expressions, their height, and the decision of their equality.
-/

namespace Scriptlet

/-- An expression. -/
inductive Expr where
  | integer (value : Int64)
  | name (identifier : String)
  | array (items : List Expr)
  | unary (operator : UnaryOperator) (operand : Expr)
  | binary (operator : BinaryOperator) (left right : Expr)
  | index (base offset : Expr)
  | call (function : String) (arguments : List Expr)
deriving Repr

namespace Expr

mutual

/-- Number of nodes on the longest path from the root to a leaf. -/
def height : Expr → Nat
  | .integer _ => 1
  | .name _ => 1
  | .array items => heightOfList items + 1
  | .unary _ operand => operand.height + 1
  | .binary _ left right => max left.height right.height + 1
  | .index base offset => max base.height offset.height + 1
  | .call _ arguments => heightOfList arguments + 1

/-- Largest height in a list, 0 for the empty list. -/
def heightOfList : List Expr → Nat
  | [] => 0
  | expr :: rest => max expr.height (heightOfList rest)

end

/-- Whether an expression is a negation by `not`. -/
def isNot : Expr → Bool
  | .unary .not _ => true
  | _ => false

/-- Level of the operator at the root, when that is a binary operator. -/
def binaryLevel? : Expr → Option Nat
  | .binary operator _ _ => some operator.level
  | _ => none

/-! ## Equality -/

mutual

/-- Whether two expressions are the same tree. -/
def same : Expr → Expr → Bool
  | .integer left, .integer right => left == right
  | .name left, .name right => left == right
  | .array left, .array right => sameList left right
  | .unary leftOperator left, .unary rightOperator right =>
      leftOperator == rightOperator && same left right
  | .binary leftOperator leftFirst leftSecond, .binary rightOperator rightFirst rightSecond =>
      leftOperator == rightOperator && same leftFirst rightFirst && same leftSecond rightSecond
  | .index leftBase leftOffset, .index rightBase rightOffset =>
      same leftBase rightBase && same leftOffset rightOffset
  | .call leftFunction left, .call rightFunction right =>
      leftFunction == rightFunction && sameList left right
  | _, _ => false

/-- Whether two lists hold the same trees in order. -/
def sameList : List Expr → List Expr → Bool
  | [], [] => true
  | left :: leftRest, right :: rightRest => same left right && sameList leftRest rightRest
  | _, _ => false

end

mutual

theorem same_iff (left right : Expr) : same left right = true ↔ left = right := by
  match left, right with
  | .integer _, right => cases right <;> simp [same]
  | .name _, right => cases right <;> simp [same]
  | .array items, right => cases right <;> simp [same, sameList_iff items]
  | .unary _ operand, right => cases right <;> simp [same, same_iff operand]
  | .binary _ first second, right =>
      cases right <;> simp [same, same_iff first, same_iff second, and_assoc]
  | .index base offset, right => cases right <;> simp [same, same_iff base, same_iff offset]
  | .call _ arguments, right => cases right <;> simp [same, sameList_iff arguments]

theorem sameList_iff (left right : List Expr) : sameList left right = true ↔ left = right := by
  match left, right with
  | [], right => cases right <;> simp [sameList]
  | first :: rest, right => cases right <;> simp [sameList, same_iff first, sameList_iff rest]

end

instance : DecidableEq Expr := fun left right =>
  decidable_of_iff (same left right = true) (same_iff left right)

end Expr

end Scriptlet
