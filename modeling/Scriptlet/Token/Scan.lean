import Scriptlet.Text.Blank
import Scriptlet.Text.Word
import Scriptlet.Token

/-!
Contract: cutting a source text into tokens.

Owns:
- the cursor into a text and the layout that is passed over between tokens;
- reading the longest lexeme at the cursor;
- the token list of a whole text, up to its end or its first failure.

A line feed is a token of its own, but a run of line feeds with nothing but
layout between them gives one token.  A failed read still moves the cursor: a
literal that is too large is passed over, a character that starts no lexeme is
not.
-/

namespace Scriptlet

open Text

/-- A place in a source text: what is left, its byte offset, and whether the
last token read before it was a line feed. -/
structure Cursor where
  rest : List Char
  position : Nat
  afterNewline : Bool
deriving DecidableEq, Repr

namespace Cursor

/-- The start of a text. -/
def start (source : String) : Cursor :=
  ⟨source.toList, 0, false⟩

end Cursor

/-- Passes over blanks, comments and repeated line feeds.  What is left is
empty, starts with a line feed that is a token, or starts with a lexeme. -/
def skipLayout (afterNewline : Bool) (inComment : Bool) :
    List Char → Nat → List Char × Nat
  | [], position => ([], position)
  | char :: rest, position =>
      if char = '\n' then
        if afterNewline then
          skipLayout afterNewline false rest (position + 1)
        else
          (char :: rest, position)
      else if inComment || char == '#' then
        skipLayout afterNewline true rest (position + char.utf8Size)
      else if isBlank char then
        skipLayout afterNewline false rest (position + char.utf8Size)
      else
        (char :: rest, position)

/-- The outcome of reading one lexeme: what it is, the characters it takes from
the front of the text, and those it leaves. -/
structure Lexeme where
  outcome : Except LexError TokenKind
  taken : List Char
  rest : List Char

/-- The text after `is not`, when that keyword stands at the front: a word
character after it would make it `is` and another word. -/
def afterIsNot? : List Char → Option (List Char)
  | 'i' :: 's' :: ' ' :: 'n' :: 'o' :: 't' :: rest =>
      if rest.head?.any isWordChar then none else some rest
  | _ => none

/-- Reads the word at the front of a text. -/
def readWord (features : FeatureSet) (chars : List Char) : Lexeme :=
  let word := String.ofList (chars.takeWhile isWordChar)
  { outcome := .ok (match Keyword.ofWord? features word with
      | some keyword => .keyword keyword
      | none => .identifier word)
    taken := chars.takeWhile isWordChar
    rest := chars.dropWhile isWordChar }

/-- One more than the largest literal, which is the largest 64-bit signed
integer. -/
def literalBound : Nat := 9223372036854775808

/-- Reads the run of digits at the front of a text. -/
def readInteger (position : Nat) (chars : List Char) : Lexeme :=
  let digits := chars.takeWhile Char.isDigit
  let value := Nat.ofDigitChars 10 digits 0
  { outcome :=
      if value < literalBound then .ok (.integer (Int64.ofNat value))
      else .error (.invalidInteger (String.ofList digits) position)
    taken := digits
    rest := chars.dropWhile Char.isDigit }

/-- Reads the symbol at the front of a text that starts with `first`. -/
def readSymbol (features : FeatureSet) (position : Nat) (first : Char) (chars : List Char) :
    Lexeme :=
  match Symbol.read? features chars with
  | some symbol =>
      { outcome := .ok (.symbol symbol)
        taken := chars.take symbol.spelling.length
        rest := chars.drop symbol.spelling.length }
  | none =>
      { outcome := .error (.invalidCharacter first position)
        taken := []
        rest := chars }

/-- Reads the lexeme at the front of the text `first :: rest`. -/
def readLexeme (features : FeatureSet) (position : Nat) (first : Char) (rest : List Char) :
    Lexeme :=
  match afterIsNot? (first :: rest) with
  | some later =>
      { outcome := .ok (.keyword .isNot)
        taken := "is not".toList
        rest := later }
  | none =>
      if isWordStart first then readWord features (first :: rest)
      else if first.isDigit then readInteger position (first :: rest)
      else readSymbol features position first (first :: rest)

/-- Reads the next token at a cursor. -/
def scan (features : FeatureSet) (cursor : Cursor) : Except LexError Token × Cursor :=
  match skipLayout cursor.afterNewline false cursor.rest cursor.position with
  | ([], position) =>
      (.ok ⟨.endOfInput, position, position⟩, ⟨[], position, cursor.afterNewline⟩)
  | (first :: rest, position) =>
      if first = '\n' then
        (.ok ⟨.newline, position, position + 1⟩, ⟨rest, position + 1, true⟩)
      else
        let lexeme := readLexeme features position first rest
        let stop := position + byteLength lexeme.taken
        (lexeme.outcome.map fun kind => ⟨kind, position, stop⟩, ⟨lexeme.rest, stop, false⟩)

/-! ## A lexeme is cut from the front of the text -/

/-- What stands before the text that `is not` leaves is its spelling. -/
theorem eq_append_of_afterIsNot? {chars later : List Char}
    (found : afterIsNot? chars = some later) : chars = "is not".toList ++ later := by
  unfold afterIsNot? at found
  split at found
  · next rest =>
      split at found
      · contradiction
      · cases found
        rfl
  · contradiction

/-- A lexeme and what it leaves make up the text. -/
theorem readLexeme_taken_append_rest (features : FeatureSet) (position : Nat) (first : Char)
    (rest : List Char) :
    (readLexeme features position first rest).taken ++
      (readLexeme features position first rest).rest = first :: rest := by
  unfold readLexeme
  split
  · next later found => exact (eq_append_of_afterIsNot? found).symm
  · split
    · exact List.takeWhile_append_dropWhile
    · split
      · exact List.takeWhile_append_dropWhile
      · unfold readSymbol
        split
        · exact List.take_append_drop _ _
        · rfl

/-! ## Every token but the last takes text -/

theorem length_skipLayout_le (afterNewline inComment : Bool) (chars : List Char)
    (position : Nat) :
    (skipLayout afterNewline inComment chars position).1.length ≤ chars.length := by
  fun_induction skipLayout afterNewline inComment chars position <;> grind

theorem length_readLexeme_lt {features : FeatureSet} {position : Nat} {first : Char}
    {rest : List Char} {kind : TokenKind}
    (read : (readLexeme features position first rest).outcome = .ok kind) :
    (readLexeme features position first rest).rest.length < (first :: rest).length := by
  unfold readLexeme at read ⊢
  split
  · next later found =>
      rw [eq_append_of_afterIsNot? found, List.length_append]
      exact Nat.lt_add_of_pos_left (by decide)
  · split
    · next start =>
        have word := isWordChar_of_isWordStart start
        have shorter := (List.dropWhile_suffix isWordChar (l := rest)).length_le
        simp only [readWord, List.dropWhile_cons_of_pos word, List.length_cons]
        omega
    · split
      · next digit =>
          have shorter := (List.dropWhile_suffix Char.isDigit (l := rest)).length_le
          simp only [readInteger, List.dropWhile_cons_of_pos digit, List.length_cons]
          omega
      · next notFound notWord notDigit =>
          rw [notFound] at read
          simp only [notWord, notDigit] at read
          unfold readSymbol at read ⊢
          split
          · next symbol _ =>
              have positive : 0 < symbol.spelling.length := by
                cases symbol <;> decide
              simp only [List.length_drop, List.length_cons]
              omega
          · next absent =>
              simp [absent] at read

theorem length_scan_lt {features : FeatureSet} {cursor next : Cursor} {token : Token}
    (scanned : scan features cursor = (.ok token, next))
    (notEnd : token.kind ≠ .endOfInput) :
    next.rest.length < cursor.rest.length := by
  have bound := length_skipLayout_le cursor.afterNewline false cursor.rest cursor.position
  unfold scan at scanned
  split at scanned
  · next position _ =>
      cases scanned
      contradiction
  · next first rest position layout =>
      rw [layout] at bound
      split at scanned
      · cases scanned
        exact bound
      · simp only [Prod.mk.injEq] at scanned
        obtain ⟨read, rfl⟩ := scanned
        cases outcome : (readLexeme features position first rest).outcome with
        | error failure => simp [outcome, Except.map] at read
        | ok kind => exact Nat.lt_of_lt_of_le (length_readLexeme_lt outcome) bound

/-! ## Whole texts -/

/-- The tokens of a text up to its end or its first failure. -/
structure TokenRun where
  tokens : List Token
  failure : Option LexError
deriving DecidableEq, Repr

namespace TokenRun

/-- Puts a token in front of a run. -/
def cons (token : Token) (run : TokenRun) : TokenRun :=
  { run with tokens := token :: run.tokens }

end TokenRun

/-- Reads every token from a cursor on. -/
def scanAll (features : FeatureSet) (cursor : Cursor) : TokenRun :=
  match _scanned : scan features cursor with
  | (.error failure, _) => ⟨[], some failure⟩
  | (.ok token, next) =>
      if _atEnd : token.kind = .endOfInput then ⟨[token], none⟩
      else (scanAll features next).cons token
termination_by cursor.rest.length
decreasing_by exact length_scan_lt _scanned _atEnd

/-- The tokens of a source text, ending with the end of input, or the first
lexical error. -/
def tokenize (features : FeatureSet) (source : String) : Except LexError (List Token) :=
  let run := scanAll features (Cursor.start source)
  match run.failure with
  | some failure => .error failure
  | none => .ok run.tokens

end Scriptlet
