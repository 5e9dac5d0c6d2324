import Scriptlet.Proofs.Grammar.Expression

/-!
Contract: how deeply the expressions of a tree stand inside each other.

Owns:
- the level of a tree, which says where it can stand without parentheses;
- the nesting of a tree that has parentheses only where its levels force them.

A left operand and the base of an index stand beside what is around them; every
other part of an expression is an expression inside it, and so is what stands in
parentheses.
-/

namespace Scriptlet

/-- Level of the operand that an operator stands in front of. -/
def UnaryOperator.level : UnaryOperator → Nat
  | .not => notLevel
  | .negate | .plus => operandLevel

theorem UnaryOperator.level_of_sign {operator : UnaryOperator} (isSign : operator ≠ .not) :
    operator.level = operandLevel := by
  cases operator with
  | not => contradiction
  | negate | plus => rfl

namespace Expr

/-- The tightest level at which a tree can stand without parentheses. -/
def level : Expr → Nat
  | .binary operator _ _ => operator.level
  | .unary .not _ => notLevel
  | _ => operandLevel

theorem one_le_level (expr : Expr) : 1 ≤ expr.level := by
  unfold level
  split
  · exact BinaryOperator.one_le_level _
  · decide
  · decide

theorem level_le_operandLevel (expr : Expr) : expr.level ≤ operandLevel := by
  unfold level
  split
  · exact Nat.le_of_lt (BinaryOperator.level_lt_operandLevel _)
  · decide
  · decide

/-- How many pairs of parentheses a tree needs where an expression of a level
stands. -/
def enclosure (expr : Expr) (level : Nat) : Nat :=
  if expr.level < level then 1 else 0

theorem enclosure_le_one (expr : Expr) (level : Nat) : expr.enclosure level ≤ 1 := by
  unfold enclosure
  split <;> decide

theorem enclosure_of_le {expr : Expr} {level : Nat} (below : level ≤ expr.level) :
    expr.enclosure level = 0 :=
  if_neg (Nat.not_lt.mpr below)

theorem enclosure_le_enclosure (expr : Expr) {looser level : Nat} (below : looser ≤ level) :
    expr.enclosure looser ≤ expr.enclosure level := by
  unfold enclosure
  split <;> split <;> omega

mutual

/-- Number of expressions that stand inside each other, the whole one included,
when parentheses stand only where levels force them. -/
def nesting : Expr → Nat
  | .integer _ => 1
  | .name _ => 1
  | .array items => nestingOfList items + 1
  | .unary operator operand => operand.nesting + operand.enclosure operator.level + 1
  | .binary operator left right =>
      max (left.nesting + left.enclosure operator.level)
        (right.nesting + right.enclosure (operator.level + 1) + 1)
  | .index base offset => max base.nesting (offset.nesting + 1)
  | .call _ arguments => nestingOfList arguments + 1

/-- Largest nesting in a list, 0 for the empty list. -/
def nestingOfList : List Expr → Nat
  | [] => 0
  | expr :: rest => max expr.nesting (nestingOfList rest)

end

theorem one_le_nesting (expr : Expr) : 1 ≤ expr.nesting := by
  cases expr with
  | index base => exact Nat.le_trans base.one_le_nesting (Nat.le_max_left _ _)
  | binary operator left =>
      have leftNests : 1 ≤ left.nesting + left.enclosure operator.level :=
        Nat.le_add_right_of_le left.one_le_nesting
      exact Nat.le_trans leftNests (Nat.le_max_left _ _)
  | _ => simp [nesting]

end Expr

/-- A name with a call and indexes needs no parentheses. -/
theorem ExprForm.Derives.level_of_place {features : FeatureSet} {tokens : List TokenKind}
    {expr : Expr} (derived : Derives features tokens (.place expr)) :
    expr.level = operandLevel := by
  cases derived <;> rfl

end Scriptlet
