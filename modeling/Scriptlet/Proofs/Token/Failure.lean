import Mathlib.Data.List.Basic
import Scriptlet.Proofs.Token.Cut

/-!
Contract: a text that cannot be cut into tokens fails at its first offending lexeme.

Owns:
- the two ways in which a lexeme can fail, and what stands in the text there;
- characters between which a token can end, which is where a text can be broken off
  without a change to the tokens before;
- what stands before a failed lexeme is cut into tokens without failure.

Reading a token looks at the text after it, so the text before a failure is another
text to every token in it.
-/

namespace Scriptlet

open Text

variable {features : FeatureSet}

/-! ## Lexemes that fail -/

/-- Whether a character starts nothing: no layout, no word, no literal, and no symbol
under a feature set, nor does it stand in one. -/
structure Offends (features : FeatureSet) (char : Char) : Prop where
  notBlank : isBlank char = false
  notComment : char ≠ '#'
  notUnderscore : char ≠ '_'
  notLetter : isLetter char = false
  notDigit : char.isDigit = false
  notInSymbol : ∀ sign : Symbol, sign.gate.all features.has = true →
    char ∉ sign.spelling.toList

/-- The characters of the comparison signs start symbols that always exist. -/
theorem Symbol.isSome_read?_comparison {char : Char} {rest : List Char}
    (comparison : char = '<' ∨ char = '>' ∨ char = '=') :
    (Symbol.read? features (char :: rest)).isSome = true := by
  rcases comparison with rfl | rfl | rfl
  · cases rest with
    | nil => rfl
    | cons next later => by_cases isEqual : next = '=' <;> simp [read?, front?, gate, isEqual]
  · cases rest with
    | nil => rfl
    | cons next later => by_cases isEqual : next = '=' <;> simp [read?, front?, gate, isEqual]
  · rfl

/-- Every character of a symbol starts one that exists where the symbol does. -/
theorem Symbol.isSome_read?_of_mem {char : Char} {sign : Symbol} {rest : List Char}
    (allowed : sign.gate.all features.has = true) (member : char ∈ sign.spelling.toList) :
    (Symbol.read? features (char :: rest)).isSome = true := by
  cases sign with
  | less | greater | lessEqual | greaterEqual =>
      apply isSome_read?_comparison
      simp only [spelling, String.reduceToList, List.mem_cons, List.not_mem_nil] at member
      grind
  | leftBracket | rightBracket =>
      obtain rfl : char = _ := by simpa [spelling] using member
      simpa [read?, front?, gate] using allowed
  | _ =>
      obtain rfl : char = _ := by simpa [spelling] using member
      rfl

/-- Whether an error is the one that a text gives where it starts with a lexeme that
fails. -/
def LexError.StartsAt (features : FeatureSet) (position : Nat) (text : List Char) :
    LexError → Prop
  | .invalidCharacter char stop => stop = position ∧ text.head? = some char ∧ Offends features char
  | .invalidInteger digits stop =>
      stop = position ∧ digits.toList = text.takeWhile Char.isDigit ∧ digits.toList ≠ [] ∧
        literalBound ≤ Nat.ofDigitChars 10 digits.toList 0
  | .exhausted => False

theorem startsAt_of_readLexeme {position : Nat} {first : Char} {rest : List Char}
    {failure : LexError} (starts : first ≠ '#' ∧ isBlank first = false)
    (failed : (readLexeme features position first rest).outcome = .error failure) :
    failure.StartsAt features position (first :: rest) := by
  unfold readLexeme at failed
  split at failed
  · cases failed
  · by_cases wordStart : isWordStart first = true
    · rw [if_pos wordStart] at failed
      cases failed
    · rw [if_neg wordStart] at failed
      by_cases digit : first.isDigit = true
      · rw [if_pos digit] at failed
        simp only [readInteger] at failed
        split at failed
        · cases failed
        · next large =>
            cases failed
            refine ⟨rfl, String.toList_ofList, ?_, ?_⟩
            · simp [digit]
            · rw [String.toList_ofList]
              exact Nat.le_of_not_lt large
      · rw [if_neg digit] at failed
        unfold readSymbol at failed
        split at failed
        · cases failed
        · next notFound =>
            cases failed
            simp only [isWordStart, Bool.or_eq_true, beq_iff_eq, not_or, Bool.not_eq_true]
              at wordStart
            refine ⟨rfl, rfl, starts.2, starts.1, wordStart.1, wordStart.2,
              Bool.eq_false_iff.mpr digit, fun sign allowed member => ?_⟩
            have found : (Symbol.read? features (first :: rest)).isSome = true :=
              Symbol.isSome_read?_of_mem allowed member
            rw [notFound] at found
            cases found

/-! ## Where a text can be broken off -/

/-- Whether neither a run of digits nor a word goes on from the end of a text into
another one. -/
def Detached (front back : List Char) : Prop :=
  ∀ last ∈ front.getLast?, ∀ first ∈ back.head?,
    (last.isDigit = true → first.isDigit = false) ∧
      (isWordStart last = true → isWordChar first = false)

theorem isWordChar_of_isBlank {char : Char} (blank : isBlank char = true) :
    isWordChar char = false := by
  have words : ∀ range ∈ blankRanges, ∀ offset ≤ range.2 - range.1,
      isWordChar (Char.ofNat (range.1 + offset)) = false := by
    decide +kernel
  obtain ⟨range, member, atLeast, atMost⟩ :=
    (CodeRange.covers_iff blankRanges_ascending _).mp blank
  have isCode : range.1 + (char.toNat - range.1) = char.toNat := by omega
  have notWord := words range member (char.toNat - range.1) (by omega)
  rw [isCode, Char.ofNat_toNat] at notWord
  exact notWord

theorem isWordStart_of_isBlank {char : Char} (blank : isBlank char = true) :
    isWordStart char = false := by
  rw [Bool.eq_false_iff]
  intro wordStart
  have wordChar := isWordChar_of_isWordStart wordStart
  rw [isWordChar_of_isBlank blank] at wordChar
  cases wordChar

theorem detached_of_isBlank {front back : List Char}
    (blank : ∀ last ∈ front.getLast?, isBlank last = true) : Detached front back := by
  intro last isLast first _
  have isBlankLast := blank last isLast
  refine ⟨fun digit => ?_, fun wordStart => ?_⟩
  · rw [(digit_class digit).1.2.2] at isBlankLast
    cases isBlankLast
  · rw [isWordStart_of_isBlank isBlankLast] at wordStart
    cases wordStart

/-- Layout in front of what is no line feed ends with a blank. -/
theorem Layout.isBlank_getLast? {later gap : List Char} (layout : Layout later gap) {first : Char}
    (head : later.head? = some first) (notNewline : first ≠ '\n') :
    ∀ last ∈ gap.getLast?, isBlank last = true := by
  induction layout with
  | none => simp
  | @blank char rest isBlank _ inductionHypothesis =>
      cases rest with
      | nil => simpa using isBlank
      | cons next rest =>
          rw [List.getLast?_cons_cons]
          exact inductionHypothesis
  | @comment body rest _ upTo _ inductionHypothesis =>
      cases rest with
      | nil => exact absurd (upTo first head) notNewline
      | cons next rest =>
          rw [← List.cons_append, List.getLast?_append_of_ne_nil _ (List.cons_ne_nil _ _)]
          exact inductionHypothesis

/-- A lexeme is detached from what its token may precede. -/
theorem detached_of_spelled {kind : TokenKind} {lexeme later : List Char}
    (nonempty : lexeme ≠ []) (spelled : kind.SpelledBy lexeme) (apart : kind.MayPrecede later) :
    Detached lexeme later := by
  intro last isLast first isFirst
  have member := List.mem_of_getLast? isLast
  obtain ⟨rest, rfl⟩ := List.head?_eq_some_iff.mp isFirst
  cases kind with
  | identifier | keyword =>
      have notWord : isWordChar first = false := apart
      refine ⟨fun _ => ?_, fun _ => notWord⟩
      rw [Bool.eq_false_iff]
      intro digit
      rw [(digit_class digit).2.2.2] at notWord
      cases notWord
  | integer =>
      have digit := spelled.1 last member
      refine ⟨fun _ => apart, fun wordStart => ?_⟩
      rw [(digit_class digit).2.2.1] at wordStart
      cases wordStart
  | symbol sign =>
      have classes : sign.spelling.toList.all
          (fun char => !char.isDigit && !isWordStart char) = true := by
        cases sign <;> decide +kernel
      rw [spelled] at member
      have neither := List.all_eq_true.mp classes last member
      rw [Bool.and_eq_true, Bool.not_eq_true', Bool.not_eq_true'] at neither
      exact ⟨fun digit => absurd digit (Bool.eq_false_iff.mp neither.1),
        fun wordStart => absurd wordStart (Bool.eq_false_iff.mp neither.2)⟩
  | newline =>
      rw [spelled] at isLast
      cases isLast
      exact ⟨nofun, fun wordStart => absurd wordStart (by decide +kernel)⟩
  | endOfInput => exact absurd spelled nonempty

/-! ## What stands before a failure -/

theorem TokenKind.MayPrecede.of_append {kind : TokenKind} {later more : List Char}
    (apart : kind.MayPrecede (later ++ more)) : kind.MayPrecede later := by
  cases later with
  | nil =>
      cases kind with
      | symbol sign => cases sign <;> simp [MayPrecede]
      | _ => simp [MayPrecede]
  | cons char later => exact apart

/-- Where a text is broken off no words `is not` come to be. -/
theorem StartsIsNot.append {text more : List Char} (starts : StartsIsNot text)
    (detached : Detached text more) : StartsIsNot (text ++ more) := by
  obtain ⟨later, rfl, apart⟩ := starts
  refine ⟨later ++ more, List.append_assoc .., ?_⟩
  cases later with
  | cons char later => exact apart
  | nil =>
      cases more with
      | nil => rfl
      | cons first more => exact (detached 't' (by decide) first rfl).2 (by decide +kernel)

/-- What is detached stays so with anything in front of it. -/
theorem Detached.append_left {front back : List Char} (detached : Detached front back)
    (some : front ≠ []) (before : List Char) : Detached (before ++ front) back := by
  rw [Detached, List.getLast?_append_of_ne_nil before some]
  exact detached

/-- Where a text is cut into tokens up to a failure, the failed lexeme starts right
behind a text that is cut without failure. -/
theorem exists_front_of_failure {cursor : Cursor} {failure : LexError}
    (failed : (scanAll features cursor).failure = some failure) :
    ∃ front back, cursor.rest = front ++ back ∧
      failure.StartsAt features (cursor.position + byteLength front) back ∧
      Detached front back ∧
      ∀ position, (scanAll features ⟨front, position, cursor.afterNewline⟩).failure = none := by
  fun_induction scanAll features cursor with
  | case1 cursor failure next scanned =>
      cases failed
      unfold scan at scanned
      split at scanned
      · cases scanned
      · next first rest start skipped =>
          obtain ⟨body, gap, isText, isStart, passed⟩ := passedOver_of_skipLayout skipped
          cases passed.outside rfl
          rw [List.nil_append] at isText isStart
          by_cases isNewline : first = '\n'
          · rw [if_pos isNewline] at scanned
            cases scanned
          · rw [if_neg isNewline] at scanned
            cases outcome : (readLexeme features start first rest).outcome with
            | ok kind => simp [outcome, Except.map] at scanned
            | error other =>
                simp only [outcome, Except.map, Prod.mk.injEq, Except.error.injEq] at scanned
                obtain ⟨rfl, _⟩ := scanned
                refine ⟨gap, first :: rest, isText, ?_, ?_, fun position => ?_⟩
                · rw [← isStart]
                  exact startsAt_of_readLexeme (starts_of_skipLayout skipped isNewline) outcome
                · exact detached_of_isBlank (passed.layout.isBlank_getLast? rfl isNewline)
                · have layout : Layout [] gap := passed.layout.of_head? (by simp)
                  rw [← List.append_nil gap, scanAll_eq, scan_of_layout layout passed.quiet]
                  rfl
  | case2 => cases failed
  | case3 cursor token next scanned notEnd inductionHypothesis =>
      obtain ⟨front, back, isRest, startsAt, detached, finishes⟩ := inductionHypothesis failed
      obtain ⟨gap, lexeme, cut⟩ := exists_cut_of_scan scanned
      have nonempty := cut.nonempty notEnd
      have apart := cut.apart
      have isNot := cut.isNot
      rw [isRest] at apart isNot
      have lexemeDetached : Detached (lexeme ++ front) back := by
        cases front with
        | nil =>
            rw [List.append_nil]
            exact detached_of_spelled nonempty cut.spelled apart
        | cons char front => exact detached.append_left (List.cons_ne_nil _ _) lexeme
      refine ⟨gap ++ (lexeme ++ front), back, ?_, ?_, ?_, fun position => ?_⟩
      · rw [cut.text, isRest]
        simp only [List.append_assoc]
      · have isStop : cursor.position + byteLength (gap ++ (lexeme ++ front)) =
            next.position + byteLength front := by
          rw [cut.position, cut.stop, cut.start]
          simp only [byteLength_append]
          omega
        rw [isStop]
        exact startsAt
      · exact lexemeDetached.append_left (by simp [nonempty]) gap
      · have notIsNot : token.kind = .keyword .is → ¬ StartsIsNot (lexeme ++ front) := by
          intro isIs starts
          refine isNot isIs ?_
          rw [← List.append_assoc]
          exact starts.append lexemeDetached
        obtain ⟨other, otherPosition, sameKind, scannedThere⟩ :=
          exists_scan_of_cut cut (readable_of_scan scanned) notEnd apart.of_append notIsNot position
        rw [scanAll_of_scan scannedThere (sameKind ▸ notEnd)]
        exact finishes otherPosition

/-! ## The first offending lexeme -/

/-- Whether an error names what the first lexeme of a text that fails is, and the byte
offset that it starts at: a character that starts nothing, or a run of digits that is as
long as it can be and too large.  What stands before it is cut into tokens. -/
def LexError.NamesFirst (features : FeatureSet) (source : String) : LexError → Prop
  | .invalidCharacter char position =>
      ∃ before after, source.toList = before ++ char :: after ∧ byteLength before = position ∧
        Offends features char ∧
        ∃ tokens, tokenize features (String.ofList before) = .ok tokens
  | .invalidInteger digits position =>
      ∃ before after, source.toList = before ++ (digits.toList ++ after) ∧
        byteLength before = position ∧
        digits.toList ≠ [] ∧ (∀ char ∈ digits.toList, char.isDigit = true) ∧
        before.getLast?.any Char.isDigit = false ∧ after.head?.any Char.isDigit = false ∧
        Int64.maxValue.toInt < Nat.ofDigitChars 10 digits.toList 0 ∧
        ∃ tokens, tokenize features (String.ofList before) = .ok tokens
  | .exhausted => False

/-- A text is cut into tokens up to its first lexeme that fails, and the error names that
lexeme. -/
theorem tokenize_error_namesFirst {source : String} {failure : LexError}
    (failed : tokenize features source = .error failure) :
    failure.NamesFirst features source := by
  obtain ⟨front, back, isSource, startsAt, detached, finishes⟩ :=
    exists_front_of_failure (tokenize_eq_error_iff.mp failed)
  change source.toList = front ++ back at isSource
  have tokenizes : ∃ tokens, tokenize features (String.ofList front) = .ok tokens := by
    refine ⟨_, tokenize_eq_ok_iff.mpr ⟨?_, rfl⟩⟩
    rw [Cursor.start, String.toList_ofList]
    exact finishes 0
  cases failure with
  | invalidCharacter char position =>
      obtain ⟨rfl, head, offends⟩ := startsAt
      obtain ⟨after, rfl⟩ := List.head?_eq_some_iff.mp head
      exact ⟨front, after, isSource, (Nat.zero_add _).symm, offends, tokenizes⟩
  | invalidInteger digits position =>
      obtain ⟨rfl, isRun, nonempty, large⟩ := startsAt
      have isBack : digits.toList ++ back.dropWhile Char.isDigit = back := by
        rw [isRun, List.takeWhile_append_dropWhile]
      have inside : ∀ char ∈ digits.toList, char.isDigit = true := by
        rw [isRun]
        exact fun char member => List.all_eq_true.mp List.all_takeWhile char member
      have noneBefore : front.getLast?.any Char.isDigit = false := by
        obtain ⟨first, rest, isCons⟩ := List.exists_cons_of_ne_nil nonempty
        have digit := inside first (by simp [isCons])
        have isFirst : back.head? = some first := by rw [← isBack, isCons]; rfl
        rw [Option.any_eq_false]
        intro last isLast
        rw [Bool.eq_false_iff]
        intro lastDigit
        rw [(detached last isLast first isFirst).1 lastDigit] at digit
        cases digit
      have tooLarge : Int64.maxValue.toInt < Nat.ofDigitChars 10 digits.toList 0 :=
        Int.ofNat_le.mpr large
      refine ⟨front, back.dropWhile Char.isDigit, ?_, (Nat.zero_add _).symm, nonempty, inside,
        noneBefore, any_head?_dropWhile Char.isDigit back, tooLarge, tokenizes⟩
      rw [isBack]
      exact isSource
  | exhausted => exact startsAt

/-- Neither the words before the literal nor a name of two bytes move the offset. -/
theorem tokenize_error_namesFirst_large :
    tokenize FeatureSet.none "é is not<9223372036854775808" =
      .error (.invalidInteger "9223372036854775808" 10) ∧
    (LexError.invalidInteger "9223372036854775808" 10).NamesFirst FeatureSet.none
      "é is not<9223372036854775808" := by
  have failed : tokenize FeatureSet.none "é is not<9223372036854775808" =
      .error (.invalidInteger "9223372036854775808" 10) := by
    decide +kernel
  exact ⟨failed, tokenize_error_namesFirst failed⟩

end Scriptlet
