import Scriptlet.Text.Letter
import Scriptlet.Text.Numeric

/-!
Contract: the characters of a word, and the size of text in bytes.

A word starts with a letter or an underscore and goes on with letters, numeric
characters and underscores.  Positions in a source text count bytes of its
UTF-8 form.
-/

namespace Scriptlet.Text

/-- Whether a character can start a word. -/
def isWordStart (char : Char) : Bool :=
  char == '_' || isLetter char

/-- Whether a character can go on with a word. -/
def isWordChar (char : Char) : Bool :=
  char == '_' || isLetter char || isNumeric char

theorem isWordChar_of_isWordStart {char : Char} (start : isWordStart char = true) :
    isWordChar char = true := by
  simp only [isWordStart] at start
  simp [isWordChar, start]

/-- Size of a text in bytes of its UTF-8 form. -/
def byteLength : List Char → Nat
  | [] => 0
  | char :: rest => char.utf8Size + byteLength rest

@[simp] theorem byteLength_nil : byteLength [] = 0 := rfl

@[simp] theorem byteLength_cons (char : Char) (chars : List Char) :
    byteLength (char :: chars) = char.utf8Size + byteLength chars := rfl

@[simp] theorem byteLength_append (left right : List Char) :
    byteLength (left ++ right) = byteLength left + byteLength right := by
  induction left with
  | nil => simp
  | cons char rest inductionHypothesis =>
      simp only [List.cons_append, byteLength_cons, inductionHypothesis]
      omega

end Scriptlet.Text
