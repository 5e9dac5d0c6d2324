import Scriptlet.Proofs.Run.Visits
import Scriptlet.Syntax.Render

/-!
Contract: canonical text of expressions with one pair of parentheses left out.

Owns:
- the texts that an expression has without one of the pairs that stand around its operands,
  at its root or anywhere inside it;
- such a text is the canonical one but for that pair, which is around an operand in the
  expression.

The pair around a negation right under `and` or `or` is not counted: it is written for the
reader, and the grammar does not ask for it.
-/

namespace Scriptlet

/-- How a unary operator is written in front of its operand. -/
def UnaryOperator.lead : UnaryOperator → String
  | .not => "not "
  | .negate => "-"
  | .plus => "+"

/-- How a binary operator is written between its operands. -/
def BinaryOperator.between (operator : BinaryOperator) (left right : String) : String :=
  left ++ " " ++ operator.symbol ++ " " ++ right

namespace Expr

/-- Whether the operand of a unary operator needs parentheses. -/
def needsParensUnder (operator : UnaryOperator) (operand : Expr) : Bool :=
  match operator with
  | .not => operand.needsParensUnderNot
  | .negate | .plus => operand.needsParensUnderSign

theorem render_unary (operator : UnaryOperator) (operand : Expr) :
    (unary operator operand).render =
      operator.lead ++ parenthesize (operand.needsParensUnder operator) operand.render := by
  cases operator <;> rfl

/-- Whether a text is the canonical one of an expression with one pair of parentheses around
an operand left out.  The pair around a negation right under `and` or `or` does not
count. -/
inductive LacksPair : Expr → String → Prop where
  | operand {operator : UnaryOperator} {operand : Expr}
      (needed : operand.needsParensUnder operator = true) :
      LacksPair (.unary operator operand) (operator.lead ++ operand.render)
  | left {operator : BinaryOperator} {left : Expr} (right : Expr)
      (needed : left.needsParensLeft operator = true)
      (counts : operator = .and ∨ operator = .or → left.isNot = false) :
      LacksPair (.binary operator left right) (operator.between left.render
        (parenthesize (right.needsParensRight operator) right.render))
  | right {operator : BinaryOperator} (left : Expr) {right : Expr}
      (needed : right.needsParensRight operator = true)
      (counts : operator = .and ∨ operator = .or → right.isNot = false) :
      LacksPair (.binary operator left right) (operator.between
        (parenthesize (left.needsParensLeft operator) left.render) right.render)
  | inOperand (operator : UnaryOperator) {operand : Expr} {text : String}
      (lacks : LacksPair operand text) :
      LacksPair (.unary operator operand)
        (operator.lead ++ parenthesize (operand.needsParensUnder operator) text)
  | inLeft (operator : BinaryOperator) {left : Expr} {text : String} (right : Expr)
      (lacks : LacksPair left text) :
      LacksPair (.binary operator left right) (operator.between
        (parenthesize (left.needsParensLeft operator) text)
        (parenthesize (right.needsParensRight operator) right.render))
  | inRight (operator : BinaryOperator) (left : Expr) {right : Expr} {text : String}
      (lacks : LacksPair right text) :
      LacksPair (.binary operator left right) (operator.between
        (parenthesize (left.needsParensLeft operator) left.render)
        (parenthesize (right.needsParensRight operator) text))
  | inItem (before : List Expr) {item : Expr} {text : String} (after : List Expr)
      (lacks : LacksPair item text) :
      LacksPair (.array (before ++ item :: after))
        ("[" ++ ", ".intercalate (before.map render ++ text :: after.map render) ++ "]")
  | inArgument (function : String) (before : List Expr) {argument : Expr} {text : String}
      (after : List Expr) (lacks : LacksPair argument text) :
      LacksPair (.call function (before ++ argument :: after))
        (function ++ "(" ++
          ", ".intercalate (before.map render ++ text :: after.map render) ++ ")")
  | inBase {base : Expr} {text : String} (offset : Expr) (lacks : LacksPair base text) :
      LacksPair (.index base offset) (text ++ "[" ++ offset.render ++ "]")
  | inOffset (base : Expr) {offset : Expr} {text : String} (lacks : LacksPair offset text) :
      LacksPair (.index base offset) (base.render ++ "[" ++ text ++ "]")

/-- Whether two texts are the same but for one pair of parentheses, around an operand in
an expression, that the second one leaves out. -/
def LeavesPairOut (expr : Expr) (whole text : String) : Prop :=
  ∃ before after : String, ∃ operand : Expr, (Node.expr operand).Within (.expr expr) ∧
    whole = before ++ ("(" ++ operand.render ++ ")") ++ after ∧
    text = before ++ operand.render ++ after

theorem LeavesPairOut.within {part expr : Expr} {whole text : String}
    (leaves : part.LeavesPairOut whole text) (isPart : (Node.expr part).Part (.expr expr))
    (front back : String) :
    expr.LeavesPairOut (front ++ whole ++ back) (front ++ text ++ back) := by
  obtain ⟨before, after, operand, within, rfl, rfl⟩ := leaves
  refine ⟨front ++ before, after ++ back, operand, within.tail isPart, ?_, ?_⟩
  · simp only [String.append_assoc]
  · simp only [String.append_assoc]

theorem LeavesPairOut.parenthesized {expr : Expr} {whole text : String}
    (leaves : expr.LeavesPairOut whole text) (needed : Bool) :
    expr.LeavesPairOut (parenthesize needed whole) (parenthesize needed text) := by
  obtain ⟨before, after, operand, within, rfl, rfl⟩ := leaves
  cases needed with
  | false => exact ⟨before, after, operand, within, rfl, rfl⟩
  | true =>
      refine ⟨"(" ++ before, after ++ ")", operand, within, ?_, ?_⟩
      · simp only [parenthesize, if_true, String.append_assoc]
      · simp only [parenthesize, if_true, String.append_assoc]

theorem leavesPairOut_of_needed {expr : Expr} {needed : Bool} (isNeeded : needed = true) :
    expr.LeavesPairOut (parenthesize needed expr.render) expr.render := by
  refine ⟨"", "", expr, .refl, ?_, ?_⟩
  · simp [isNeeded, parenthesize]
  · simp

/-- The texts of a list stand around that of any of its members. -/
theorem exists_intercalate (before after : List String) :
    ∃ front back, ∀ text, ", ".intercalate (before ++ text :: after) = front ++ text ++ back := by
  induction before with
  | nil =>
      cases after with
      | nil => exact ⟨"", "", fun text => by simp⟩
      | cons next after =>
          refine ⟨"", ", " ++ ", ".intercalate (next :: after), fun text => ?_⟩
          simp [String.append_assoc]
  | cons first before inductionHypothesis =>
      obtain ⟨front, back, isText⟩ := inductionHypothesis
      refine ⟨first ++ ", " ++ front, back, fun text => ?_⟩
      rw [List.cons_append, String.intercalate_cons_of_ne_nil (by simp), isText]
      simp only [String.append_assoc]

theorem LacksPair.leavesPairOut {expr : Expr} {text : String} (lacks : LacksPair expr text) :
    expr.LeavesPairOut expr.render text := by
  induction lacks with
  | @operand operator operand needed =>
      have leaves := (leavesPairOut_of_needed needed).within (.operand operator operand)
        operator.lead ""
      simpa [render_unary] using leaves
  | @left operator left right needed =>
      have leaves := (leavesPairOut_of_needed needed).within (.left operator left right) ""
        (" " ++ operator.symbol ++ " " ++
          parenthesize (right.needsParensRight operator) right.render)
      simpa [render, BinaryOperator.between, String.append_assoc] using leaves
  | @right operator left right needed =>
      have leaves := (leavesPairOut_of_needed needed).within (.right operator left right)
        (parenthesize (left.needsParensLeft operator) left.render ++ " " ++
          operator.symbol ++ " ") ""
      simpa [render, BinaryOperator.between] using leaves
  | @inOperand operator operand _ _ leaves =>
      have leaves := (leaves.parenthesized (operand.needsParensUnder operator)).within
        (.operand operator operand) operator.lead ""
      simpa [render_unary] using leaves
  | @inLeft operator left _ right _ leaves =>
      have leaves := (leaves.parenthesized (left.needsParensLeft operator)).within
        (.left operator left right) "" (" " ++ operator.symbol ++ " " ++
          parenthesize (right.needsParensRight operator) right.render)
      simpa [render, BinaryOperator.between, String.append_assoc] using leaves
  | @inRight operator left right _ _ leaves =>
      have leaves := (leaves.parenthesized (right.needsParensRight operator)).within
        (.right operator left right)
        (parenthesize (left.needsParensLeft operator) left.render ++ " " ++
          operator.symbol ++ " ") ""
      simpa [render, BinaryOperator.between] using leaves
  | @inItem before item _ after _ leaves =>
      obtain ⟨front, back, isText⟩ := exists_intercalate (before.map render) (after.map render)
      have member : item ∈ before ++ item :: after := List.mem_append_cons_self
      have leaves := leaves.within (.item member) ("[" ++ front) (back ++ "]")
      simpa [render, isText, String.append_assoc] using leaves
  | @inArgument function before argument _ after _ leaves =>
      obtain ⟨front, back, isText⟩ := exists_intercalate (before.map render) (after.map render)
      have member : argument ∈ before ++ argument :: after := List.mem_append_cons_self
      have leaves := leaves.within (.argument function member) (function ++ "(" ++ front)
        (back ++ ")")
      simpa [render, isText, String.append_assoc] using leaves
  | @inBase base _ offset _ leaves =>
      have leaves := leaves.within (.base base offset) "" ("[" ++ offset.render ++ "]")
      simpa [render, String.append_assoc] using leaves
  | @inOffset base offset _ _ leaves =>
      have leaves := leaves.within (.offset base offset) (base.render ++ "[") "]"
      simpa [render] using leaves

end Expr

end Scriptlet
