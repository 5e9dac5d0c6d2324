import Scriptlet.Feature

/-!
Contract: the tokens of a source text and the failures of cutting it into them.

Owns:
- keywords and symbols with their spellings and the features that gate them;
- tokens with their byte spans and display texts;
- lexical errors with their messages.

Does not own: how a text is cut into tokens.
-/

namespace Scriptlet

/-- A reserved word. -/
inductive Keyword where
  | and
  | or
  | not
  | is
  | isNot
  | ifThen
  | elseIf
  | otherwise
  | forLoop
  | function
  | returns
deriving DecidableEq, Repr

namespace Keyword

/-- Every keyword. -/
def all : List Keyword :=
  [.and, .or, .not, .is, .isNot, .ifThen, .elseIf, .otherwise, .forLoop, .function, .returns]

@[simp] theorem mem_all (keyword : Keyword) : keyword ∈ all := by
  cases keyword <;> decide

/-- How a keyword is written. -/
def spelling : Keyword → String
  | .and => "and"
  | .or => "or"
  | .not => "not"
  | .is => "is"
  | .isNot => "is not"
  | .ifThen => "if"
  | .elseIf => "elif"
  | .otherwise => "else"
  | .forLoop => "for"
  | .function => "func"
  | .returns => "return"

/-- The feature without which a keyword is an ordinary word. -/
def gate : Keyword → Option Feature
  | .and | .or | .not | .is | .isNot => none
  | .ifThen | .otherwise => some .conditional
  | .elseIf => some .elseIf
  | .forLoop => some .loop
  | .function | .returns => some .function

/-- The keyword that a word is under a feature set, if it is one. -/
def ofWord? (features : FeatureSet) (word : String) : Option Keyword :=
  all.find? fun keyword => keyword.spelling == word && keyword.gate.all features.has

end Keyword

/-- An operator sign or a delimiter. -/
inductive Symbol where
  | plus
  | minus
  | star
  | slash
  | percent
  | less
  | lessEqual
  | greater
  | greaterEqual
  | assign
  | leftParen
  | rightParen
  | leftBrace
  | rightBrace
  | leftBracket
  | rightBracket
  | comma
  | semicolon
deriving DecidableEq, Repr

namespace Symbol

/-- How a symbol is written. -/
def spelling : Symbol → String
  | .plus => "+"
  | .minus => "-"
  | .star => "*"
  | .slash => "/"
  | .percent => "%"
  | .less => "<"
  | .lessEqual => "<="
  | .greater => ">"
  | .greaterEqual => ">="
  | .assign => "="
  | .leftParen => "("
  | .rightParen => ")"
  | .leftBrace => "\x7b"
  | .rightBrace => "\x7d"
  | .leftBracket => "["
  | .rightBracket => "]"
  | .comma => ","
  | .semicolon => ";"

/-- The feature without which a symbol does not exist. -/
def gate : Symbol → Option Feature
  | .leftBracket | .rightBracket => some .array
  | _ => none

/-- The longest symbol at the front of a text, features left aside. -/
def front? : List Char → Option Symbol
  | '<' :: '=' :: _ => some .lessEqual
  | '>' :: '=' :: _ => some .greaterEqual
  | '+' :: _ => some .plus
  | '-' :: _ => some .minus
  | '*' :: _ => some .star
  | '/' :: _ => some .slash
  | '%' :: _ => some .percent
  | '<' :: _ => some .less
  | '>' :: _ => some .greater
  | '=' :: _ => some .assign
  | '(' :: _ => some .leftParen
  | ')' :: _ => some .rightParen
  | '\x7b' :: _ => some .leftBrace
  | '\x7d' :: _ => some .rightBrace
  | '[' :: _ => some .leftBracket
  | ']' :: _ => some .rightBracket
  | ',' :: _ => some .comma
  | ';' :: _ => some .semicolon
  | _ => none

/-- The symbol at the front of a text under a feature set. -/
def read? (features : FeatureSet) (chars : List Char) : Option Symbol :=
  (front? chars).filter fun symbol => symbol.gate.all features.has

end Symbol

/-- What a token is, apart from where it stands. -/
inductive TokenKind where
  | identifier (name : String)
  | integer (value : Int64)
  | keyword (word : Keyword)
  | symbol (sign : Symbol)
  | newline
  | endOfInput
deriving DecidableEq, Repr

namespace TokenKind

/-- Display text of a token, as error messages name it. -/
def describe : TokenKind → String
  | .identifier name => "identifier '" ++ name ++ "'"
  | .integer value => "integer " ++ value.toInt.repr
  | .keyword word => "'" ++ word.spelling ++ "'"
  | .symbol sign => "'" ++ sign.spelling ++ "'"
  | .newline => "newline"
  | .endOfInput => "end of input"

end TokenKind

/-- A token with the bytes it spans, `stop` excluded. -/
structure Token where
  kind : TokenKind
  start : Nat
  stop : Nat
deriving DecidableEq, Repr

/-- A failure to read the next token.  Positions are byte offsets. -/
inductive LexError where
  | invalidCharacter (character : Char) (position : Nat)
  | invalidInteger (digits : String) (position : Nat)
  | exhausted
deriving DecidableEq, Repr

namespace LexError

/-- Text of a lexical error. -/
def message : LexError → String
  | .invalidCharacter character position =>
      "Invalid character '" ++ character.toString ++ "' at position " ++ position.repr
  | .invalidInteger digits position =>
      "Invalid integer literal '" ++ digits ++ "' at position " ++ position.repr
  | .exhausted => "Token requested after end of input"

end LexError

end Scriptlet
