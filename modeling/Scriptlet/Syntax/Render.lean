import Scriptlet.Syntax.Statement

/-!
Contract: canonical text of expressions, statements and blocks.

Owns:
- the rule for which operands stand in parentheses;
- one statement a line, blocks in braces and indented by four spaces a level.

The left operand of a binary operator is parenthesised when it binds looser
than the operator, the right operand also when it binds as loosely, and either
one when it is a negation by `not`.  The operand of a sign is parenthesised when
it is binary or a negation by `not`; the operand of `not` when it binds looser
than `not`.
-/

namespace Scriptlet

namespace Expr

/-- Puts a text in parentheses when asked to. -/
def parenthesize (needed : Bool) (text : String) : String :=
  if needed then "(" ++ text ++ ")" else text

/-- Whether the operand of `not` needs parentheses. -/
def needsParensUnderNot (operand : Expr) : Bool :=
  operand.binaryLevel?.any (· < notLevel)

/-- Whether the operand of a sign needs parentheses. -/
def needsParensUnderSign (operand : Expr) : Bool :=
  operand.isNot || operand.binaryLevel?.isSome

/-- Whether the left operand of a binary operator needs parentheses. -/
def needsParensLeft (operator : BinaryOperator) (operand : Expr) : Bool :=
  operand.isNot || operand.binaryLevel?.any (· < operator.level)

/-- Whether the right operand of a binary operator needs parentheses. -/
def needsParensRight (operator : BinaryOperator) (operand : Expr) : Bool :=
  operand.isNot || operand.binaryLevel?.any (· ≤ operator.level)

mutual

/-- Canonical text of an expression. -/
def render : Expr → String
  | .integer value => value.toInt.repr
  | .name identifier => identifier
  | .array items => "[" ++ ", ".intercalate (renderList items) ++ "]"
  | .unary .not operand =>
      "not " ++ parenthesize operand.needsParensUnderNot operand.render
  | .unary .negate operand =>
      "-" ++ parenthesize operand.needsParensUnderSign operand.render
  | .unary .plus operand =>
      "+" ++ parenthesize operand.needsParensUnderSign operand.render
  | .binary operator left right =>
      parenthesize (left.needsParensLeft operator) left.render ++
        " " ++ operator.symbol ++ " " ++
        parenthesize (right.needsParensRight operator) right.render
  | .index base offset => base.render ++ "[" ++ offset.render ++ "]"
  | .call function arguments =>
      function ++ "(" ++ ", ".intercalate (renderList arguments) ++ ")"

/-- Canonical texts of some expressions. -/
def renderList : List Expr → List String
  | [] => []
  | expr :: rest => expr.render :: renderList rest

end

@[simp] theorem renderList_eq_map (exprs : List Expr) : renderList exprs = exprs.map render := by
  induction exprs with
  | nil => rfl
  | cons expr rest inductionHypothesis => simp [renderList, inductionHypothesis]

end Expr

/-- The indentation of a nesting depth, four spaces a level. -/
def indentation (depth : Nat) : String :=
  String.ofList (List.replicate (4 * depth) ' ')

/-- Puts the lines of a block in braces, the closing one indented to `depth`. -/
def inBraces (depth : Nat) (lines : String) : String :=
  "\x7b\n" ++ lines ++ indentation depth ++ "\x7d"

namespace Statement

mutual

/-- Canonical text of a statement whose first line is already indented to
`depth`. -/
def renderAt (depth : Nat) : Statement → String
  | .assign name value => name ++ " = " ++ value.render
  | .store base offset value =>
      base.render ++ "[" ++ offset.render ++ "] = " ++ value.render
  | .evaluate expr => expr.render
  | .choose branches otherwise =>
      renderBranches depth "if " branches ++
        (if otherwise.isEmpty then ""
          else " else " ++ inBraces depth (renderLines (depth + 1) otherwise))
  | .loop initial condition step body =>
      "for " ++ initial.renderAt depth ++ "; " ++ (condition.map Expr.render).getD "" ++ "; " ++
        step.renderAt depth ++ (match step with | .skip => "" | _ => " ") ++
        inBraces depth (renderLines (depth + 1) body)
  | .declare name parameters body =>
      "func " ++ name ++ "(" ++ ", ".intercalate parameters ++ ") " ++
        inBraces depth (renderLines (depth + 1) body)
  | .giveBack value => "return " ++ value.render
  | .skip => ""

/-- Text of some branches, the first one after `lead`. -/
def renderBranches (depth : Nat) (lead : String) : List Branch → String
  | [] => ""
  | .mk condition body :: rest =>
      lead ++ condition.render ++ " " ++
        inBraces depth (renderLines (depth + 1) body) ++
        renderBranches depth " elif " rest

/-- One line per statement, indented to `depth`. -/
def renderLines (depth : Nat) : Block → String
  | [] => ""
  | statement :: rest =>
      indentation depth ++ statement.renderAt depth ++ "\n" ++ renderLines depth rest

end

/-- Canonical text of a statement. -/
def render (statement : Statement) : String :=
  statement.renderAt 0

end Statement

namespace Block

/-- Canonical text of a block in braces. -/
def render (block : Block) : String :=
  inBraces 0 (Statement.renderLines 1 block)

/-- Canonical text of a block as a whole program, one statement a line. -/
def toSource (block : Block) : String :=
  Statement.renderLines 0 block

end Block

end Scriptlet
