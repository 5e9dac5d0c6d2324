import Scriptlet.Syntax.Render
import Scriptlet.Token

/-!
Contract: the failures of parsing, with their messages.
-/

namespace Scriptlet

/-- Deepest nesting of blocks and expressions a program may use; expression
trees are also at most this high. -/
def maxNesting : Nat := 256

/-- A failure of parsing.  Positions are byte offsets. -/
inductive ParseError where
  /-- The next token could not be read. -/
  | lexical (error : LexError)
  /-- Another token stands where `expected` has to stand. -/
  | unexpected (expected : String) (found : TokenKind) (position : Nat)
  /-- No statement starts with this token. -/
  | invalidStart (found : TokenKind) (position : Nat)
  /-- The target of an assignment is a call. -/
  | invalidTarget (target : Expr)
  /-- Blocks or expressions are nested too deeply. -/
  | tooDeep (position : Nat)
deriving DecidableEq

namespace ParseError

/-- Text of a parse error. -/
def message : ParseError → String
  | .lexical error => error.message
  | .unexpected expected found position =>
      "Syntax error: Expected " ++ expected ++ ", got " ++ found.describe ++
        " at position " ++ position.repr
  | .invalidStart found position =>
      "Syntax error: Invalid statement start: " ++ found.describe ++
        " at position " ++ position.repr
  | .invalidTarget target => "Syntax error: Cannot assign to '" ++ target.render ++ "'"
  | .tooDeep position =>
      "Syntax error: Nesting depth exceeds maximum of " ++ maxNesting.repr ++
        " levels at position " ++ position.repr

end ParseError

end Scriptlet
