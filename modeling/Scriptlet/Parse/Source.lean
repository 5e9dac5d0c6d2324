import Scriptlet.Parse.Error

/-!
Contract: what a parser reads from, and its smallest steps.

Owns:
- the operations that a parser asks of the source of its tokens;
- passing over tokens, and the failures of the token in sight;
- looking ahead from a mark, which is dropped again or gone back to.

A parser sees one token and asks for the next one when it passes over it.  A
lexical failure counts only when the token it stands for is asked for, so a
syntax error before that place is the one reported.
-/

namespace Scriptlet

/-- What a parser asks of the source of its tokens. -/
class TokenSource (σ : Type) where
  /-- What the parser itself keeps of a place that is marked. -/
  Checkpoint : Type
  /-- The token in sight. -/
  current : σ → Token
  /-- Brings the next token in sight. -/
  next : σ → Except LexError σ
  /-- Sets the mark here. -/
  mark : σ → Checkpoint × σ
  /-- Drops the mark. -/
  unmark : σ → σ
  /-- Goes back to the mark and drops it. -/
  rewind : Checkpoint → σ → σ

/-- A parser of some result, reading from a source. -/
abbrev Parser (σ : Type) := StateT σ (Except ParseError)

/-- What a program is parsed under: its features, and a bound on the items of
one list, chain or block.  Any number that the tokens do not exceed bounds them
all. -/
structure Grammar where
  features : FeatureSet
  limit : Nat

namespace Parser

variable {σ : Type} [TokenSource σ]

/-- The token in sight. -/
def sight : Parser σ Token := do
  return TokenSource.current (← get)

/-- The kind of the token in sight. -/
def peek : Parser σ TokenKind := do
  return (← sight).kind

/-- Passes over the token in sight. -/
def advance : Parser σ Unit := do
  match TokenSource.next (← get) with
  | .ok later => set later
  | .error failure => throw (.lexical failure)

/-- Sets the mark at the token in sight. -/
def mark : Parser σ (TokenSource.Checkpoint σ) :=
  modifyGet TokenSource.mark

/-- Drops the mark. -/
def unmark : Parser σ Unit :=
  modify TokenSource.unmark

/-- Goes back to the mark. -/
def rewind (checkpoint : TokenSource.Checkpoint σ) : Parser σ Unit :=
  modify (TokenSource.rewind checkpoint)

/-- Fails because something else than the token in sight has to stand here. -/
def unexpected {α : Type} (expected : String) : Parser σ α := do
  let token ← sight
  throw (.unexpected expected token.kind token.start)

/-- Fails because the nesting limit is reached here. -/
def tooDeep {α : Type} : Parser σ α := do
  throw (.tooDeep (← sight).start)

/-- Passes over a token that has to stand here. -/
def expect (kind : TokenKind) : Parser σ Unit := do
  if (← peek) = kind then advance else unexpected kind.describe

/-- Passes over an identifier that has to stand here. -/
def identifier : Parser σ String := do
  match ← peek with
  | .identifier name => do
      advance
      return name
  | _ => unexpected "identifier"

/-- Passes over a line feed if one stands here. -/
def skipNewline : Parser σ Unit := do
  if (← peek) = .newline then advance

/-- Accepts an expression that is not too high. -/
def bounded (expr : Expr) : Parser σ Expr :=
  if maxNesting < expr.height then tooDeep else pure expr

end Parser

end Scriptlet
