import Scriptlet.Parse.Expr
import Scriptlet.Parse.Reader

/-!
Contract: parsing statements, blocks and whole programs.

A block takes one unit of `room` for everything in it, so blocks recurse on
`room`.  Statements need nothing between them; a line feed after a statement or
a brace is passed over.
-/

namespace Scriptlet

namespace Parser

variable {σ : Type} [TokenSource σ]

/-- Stores a value at a parsed target, when it is a name or an index. -/
def assignment (target value : Expr) : Parser σ Statement :=
  match target with
  | .name name => return .assign name value
  | .index base offset => return .store base offset value
  | _ => throw (.invalidTarget target)

/-- A statement that starts with an identifier.  It is an assignment if an
assignment sign follows its place; if not, the place is read again as the start
of an expression. -/
def assignmentOrExpression (grammar : Grammar) (expression : Parser σ Expr) :
    Parser σ Statement := do
  let checkpoint ← mark
  let target ← place grammar expression
  if (← peek) = .symbol .assign then
    unmark
    advance
    let value ← expression
    assignment target value
  else
    rewind checkpoint
    let expr ← expression
    return .evaluate expr

/-- An assignment that has to stand here. -/
def assignmentOnly (grammar : Grammar) (expression : Parser σ Expr) : Parser σ Statement := do
  let target ← place grammar expression
  expect (.symbol .assign)
  let value ← expression
  assignment target value

/-- A condition with its block. -/
def branch (expression : Parser σ Expr) (block : Parser σ Block) : Parser σ Branch := do
  let condition ← expression
  let body ← block
  return .mk condition body

/-- The further branches of a chain of conditions, at most `limit`. -/
def elseIfBranches (grammar : Grammar) (expression : Parser σ Expr) (block : Parser σ Block) :
    (limit : Nat) → Parser σ (List Branch)
  | 0 => return []
  | limit + 1 => do
      if (← peek) = .keyword .elseIf ∧ .elseIf ∈ grammar.features then
        advance
        let first ← branch expression block
        let rest ← elseIfBranches grammar expression block limit
        return first :: rest
      else
        return []

/-- A chain of conditions. -/
def choice (grammar : Grammar) (expression : Parser σ Expr) (block : Parser σ Block) :
    Parser σ Statement := do
  expect (.keyword .ifThen)
  let first ← branch expression block
  let rest ← elseIfBranches grammar expression block grammar.limit
  if (← peek) = .keyword .otherwise then
    advance
    let otherwise ← block
    return .choose (first :: rest) otherwise
  else
    return .choose (first :: rest) []

/-- A part of a loop header: nothing in front of `absent`, else an assignment. -/
def headerPart (grammar : Grammar) (expression : Parser σ Expr) (absent : Symbol) :
    Parser σ Statement := do
  if (← peek) = .symbol absent then return .skip
  else assignmentOnly grammar expression

/-- The condition of a loop header, if there is one. -/
def headerCondition (expression : Parser σ Expr) : Parser σ (Option Expr) := do
  if (← peek) = .symbol .semicolon then
    return none
  else
    let condition ← expression
    return some condition

/-- A loop. -/
def loop (grammar : Grammar) (expression : Parser σ Expr) (block : Parser σ Block) :
    Parser σ Statement := do
  expect (.keyword .forLoop)
  let initial ← headerPart grammar expression .semicolon
  expect (.symbol .semicolon)
  let condition ← headerCondition expression
  expect (.symbol .semicolon)
  let step ← headerPart grammar expression .leftBrace
  let body ← block
  return .loop initial condition step body

/-- One or more parameter names with commas between them, at most `limit`. -/
def parameterNames : (limit : Nat) → Parser σ (List String)
  | 0 => return []
  | limit + 1 => do
      let first ← identifier
      if (← peek) = .symbol .comma then
        advance
        let rest ← parameterNames limit
        return first :: rest
      else
        return [first]

/-- The parameters of a declaration, up to the closing parenthesis. -/
def parameters (grammar : Grammar) : Parser σ (List String) := do
  if (← peek) = .symbol .rightParen then return []
  else parameterNames grammar.limit

/-- A function declaration. -/
def declaration (grammar : Grammar) (block : Parser σ Block) : Parser σ Statement := do
  expect (.keyword .function)
  let name ← identifier
  expect (.symbol .leftParen)
  let names ← parameters grammar
  expect (.symbol .rightParen)
  let body ← block
  return .declare name names body

/-- A return statement. -/
def giveBack (expression : Parser σ Expr) : Parser σ Statement := do
  expect (.keyword .returns)
  let value ← expression
  return .giveBack value

/-- Fails because no statement starts with the token in sight. -/
def invalidStart {α : Type} : Parser σ α := do
  let token ← sight
  throw (.invalidStart token.kind token.start)

/-- A statement, without the line feed after it. -/
def bareStatement (grammar : Grammar) (expression : Parser σ Expr) (block : Parser σ Block) :
    Parser σ Statement := do
  match ← peek with
  | .identifier _ => assignmentOrExpression grammar expression
  | .keyword .ifThen =>
      if .conditional ∈ grammar.features then choice grammar expression block else invalidStart
  | .keyword .forLoop =>
      if .loop ∈ grammar.features then loop grammar expression block else invalidStart
  | .keyword .function =>
      if .function ∈ grammar.features then declaration grammar block else invalidStart
  | .keyword .returns =>
      if .function ∈ grammar.features then giveBack expression else invalidStart
  | _ => invalidStart

/-- A statement with the line feed after it. -/
def statement (grammar : Grammar) (expression : Parser σ Expr) (block : Parser σ Block) :
    Parser σ Statement := do
  let found ← bareStatement grammar expression block
  skipNewline
  return found

/-- Statements up to the closing brace of a block, at most `limit`. -/
def statementsInBlock (statement : Parser σ Statement) : (limit : Nat) → Parser σ Block
  | 0 => return []
  | limit + 1 => do
      match ← peek with
      | .symbol .rightBrace => return []
      | .endOfInput => unexpected (TokenKind.symbol .rightBrace).describe
      | _ => do
          let first ← statement
          let rest ← statementsInBlock statement limit
          return first :: rest

/-- A block in braces. -/
def block (grammar : Grammar) : (room : Nat) → Parser σ Block
  | 0 => tooDeep
  | room + 1 => do
      expect (.symbol .leftBrace)
      skipNewline
      let statements ← statementsInBlock
        (statement grammar (expression grammar room) (block grammar room)) grammar.limit
      advance
      skipNewline
      return statements

/-- Statements up to the end of input, at most `limit`. -/
def statementsToEnd (statement : Parser σ Statement) : (limit : Nat) → Parser σ Block
  | 0 => return []
  | limit + 1 => do
      if (← peek) = .endOfInput then
        return []
      else
        let first ← statement
        let rest ← statementsToEnd statement limit
        return first :: rest

/-- A whole program. -/
def program (grammar : Grammar) : Parser σ Block := do
  skipNewline
  statementsToEnd
    (statement grammar (expression grammar maxNesting) (block grammar maxNesting)) grammar.limit

end Parser

/-- Parses a source text under a feature set.  Tokens are read from the text as
the parser asks for them.  A text has no more tokens than characters, its end
apart, so lists, chains and blocks never reach the limit. -/
def parse (features : FeatureSet) (source : String) : Except ParseError Block :=
  match Reader.ofStream (TokenStream.ofSource features source) with
  | .ok reader => (Parser.program ⟨features, source.length + 1⟩).run' reader
  | .error failure => .error (.lexical failure)

end Scriptlet
