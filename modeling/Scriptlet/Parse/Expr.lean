import Scriptlet.Parse.Source

/-!
Contract: parsing expressions.

Owns:
- operands, places (a name with a call and indexes), and comma lists;
- precedence climbing over left-associative binary operators.

`room` is the number of nested blocks and expressions that may still be opened.
Every expression and every operand of a sign takes one, so the recursion is on
`room`; parsers of smaller pieces take the parsers they nest as arguments.
-/

namespace Scriptlet

namespace BinaryOperator

/-- The binary operator that a token is, if it is one. -/
def ofToken? : TokenKind → Option BinaryOperator
  | .keyword .or => some .or
  | .keyword .and => some .and
  | .keyword .is => some .is
  | .keyword .isNot => some .isNot
  | .symbol .less => some .less
  | .symbol .lessEqual => some .lessEqual
  | .symbol .greater => some .greater
  | .symbol .greaterEqual => some .greaterEqual
  | .symbol .plus => some .add
  | .symbol .minus => some .subtract
  | .symbol .star => some .multiply
  | .symbol .slash => some .divide
  | .symbol .percent => some .modulo
  | _ => none

end BinaryOperator

namespace UnaryOperator

/-- The sign that a token is, if it is one. -/
def ofSign? : TokenKind → Option UnaryOperator
  | .symbol .plus => some .plus
  | .symbol .minus => some .negate
  | _ => none

end UnaryOperator

namespace Parser

variable {σ : Type} [TokenSource σ]

/-- One or more expressions with commas between them, at most `limit`. -/
def items (expression : Parser σ Expr) : (limit : Nat) → Parser σ (List Expr)
  | 0 => return []
  | limit + 1 => do
      let first ← expression
      if (← peek) = .symbol .comma then
        advance
        let rest ← items expression limit
        return first :: rest
      else
        return [first]

/-- Expressions with commas between them, up to and past `close`. -/
def listUpTo (grammar : Grammar) (close : Symbol) (expression : Parser σ Expr) :
    Parser σ (List Expr) := do
  if (← peek) = .symbol close then
    advance
    return []
  else
    let found ← items expression grammar.limit
    expect (.symbol close)
    return found

/-- The indexes after `base`, at most `limit`. -/
def indexes (grammar : Grammar) (expression : Parser σ Expr) : (limit : Nat) → Expr → Parser σ Expr
  | 0, base => return base
  | limit + 1, base => do
      if (← peek) = .symbol .leftBracket ∧ .array ∈ grammar.features then
        advance
        let offset ← expression
        expect (.symbol .rightBracket)
        let indexed ← bounded (.index base offset)
        indexes grammar expression limit indexed
      else
        return base

/-- A name, with an optional call and any number of indexes. -/
def place (grammar : Grammar) (expression : Parser σ Expr) : Parser σ Expr := do
  let name ← identifier
  if (← peek) = .symbol .leftParen ∧ .function ∈ grammar.features then
    advance
    let arguments ← listUpTo grammar .rightParen expression
    let call ← bounded (.call name arguments)
    indexes grammar expression grammar.limit call
  else
    indexes grammar expression grammar.limit (.name name)

/-- An operand without a sign. -/
def primary (grammar : Grammar) (expression : Parser σ Expr) : Parser σ Expr := do
  match ← peek with
  | .integer value => do
      advance
      return .integer value
  | .identifier _ => place grammar expression
  | .symbol .leftParen => do
      advance
      let inner ← expression
      expect (.symbol .rightParen)
      return inner
  | .symbol .leftBracket =>
      if .array ∈ grammar.features then do
        advance
        let found ← listUpTo grammar .rightBracket expression
        bounded (.array found)
      else
        unexpected "expression"
  | _ => unexpected "expression"

/-- An operand: a sign with the operand under it, or one without a sign. -/
def signed (underSign plain : Parser σ Expr) : Parser σ Expr := do
  match UnaryOperator.ofSign? (← peek) with
  | some operator => do
      advance
      let operand ← underSign
      bounded (.unary operator operand)
  | none => plain

/-- The binary operators of at least level `least` after `left`, with their
right operands, at most `limit`. -/
def chain (least : Nat) (operandAt : Nat → Parser σ Expr) : (limit : Nat) → Expr → Parser σ Expr
  | 0, left => return left
  | limit + 1, left => do
      match BinaryOperator.ofToken? (← peek) with
      | some operator =>
          if operator.level < least then
            return left
          else
            advance
            let right ← operandAt (operator.level + 1)
            let joined ← bounded (.binary operator left right)
            chain least operandAt limit joined
      | none => return left

/-- An expression of operators of at least level `least`: a first operand, then
a chain.  `operandAt level` parses an operand of operators of at least `level`. -/
def climb (grammar : Grammar) (operand : Parser σ Expr) (operandAt : Nat → Parser σ Expr)
    (least : Nat) : Parser σ Expr := do
  if (← peek) = .keyword .not ∧ least ≤ notLevel then
    advance
    let negated ← operandAt notLevel
    let first ← bounded (.unary .not negated)
    chain least operandAt grammar.limit first
  else
    let first ← operand
    chain least operandAt grammar.limit first

mutual

/-- An expression of operators of at least level `least`. -/
def expressionAt (grammar : Grammar) : (room : Nat) → (least : Nat) → Parser σ Expr
  | 0, _ => tooDeep
  | room + 1, least => climb grammar (operand grammar room) (expressionAt grammar room) least

/-- An operand of binary operators. -/
def operand (grammar : Grammar) : (room : Nat) → Parser σ Expr
  | 0 => signed tooDeep (primary grammar tooDeep)
  | room + 1 =>
      signed (operand grammar room)
        (primary grammar
          (climb grammar (operand grammar room) (expressionAt grammar room) 0))

end

/-- An expression. -/
def expression (grammar : Grammar) (room : Nat) : Parser σ Expr :=
  expressionAt grammar room 0

@[simp] theorem expression_zero (grammar : Grammar) :
    expression grammar 0 = (tooDeep : Parser σ Expr) := rfl

theorem expressionAt_succ (grammar : Grammar) (room least : Nat) :
    (expressionAt grammar (room + 1) least : Parser σ Expr) =
      climb grammar (operand grammar room) (expressionAt grammar room) least := rfl

theorem operand_zero (grammar : Grammar) :
    (operand grammar 0 : Parser σ Expr) =
      signed tooDeep (primary grammar (expression grammar 0)) := rfl

/-- Parenthesised, indexed and listed expressions of an operand open from the
operand's own room; only a sign takes room of its own. -/
theorem operand_succ (grammar : Grammar) (room : Nat) :
    (operand grammar (room + 1) : Parser σ Expr) =
      signed (operand grammar room) (primary grammar (expression grammar (room + 1))) := rfl

end Parser

end Scriptlet
