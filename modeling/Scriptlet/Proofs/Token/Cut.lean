import Scriptlet.Proofs.Token.Features
import Scriptlet.Proofs.Token.Reads

/-!
Contract: what reading one token takes from a text.

Owns:
- layout: blanks, and comments that run up to a line feed or the end of the text;
- the spellings of a token kind, and what may stand right after one;
- that reading a token takes layout and then a spelling of it, as much of the text
  as belongs to it;
- the converse: a token that is taken so is read again wherever layout and its
  spelling stand in front of a text that does not go on with it.

Does not own: the tokens of a whole text, and where in the text they stand.
-/

namespace Scriptlet

open Text

/-- Every character takes bytes. -/
theorem Text.byteLength_eq_zero_iff {chars : List Char} : byteLength chars = 0 ↔ chars = [] := by
  cases chars with
  | nil => simp
  | cons char rest =>
      have positive := char.utf8Size_pos
      simp only [byteLength_cons, reduceCtorEq, iff_false]
      omega

/-! ## Layout -/

/-- Whether a text in front of another one is made of blanks and of comments, each
of which runs up to a line feed or the end of both. -/
inductive Layout (later : List Char) : List Char → Prop where
  | none : Layout later []
  | blank {char : Char} {rest : List Char} (isBlank : isBlank char = true)
      (layout : Layout later rest) : Layout later (char :: rest)
  | comment {body rest : List Char} (inLine : '\n' ∉ body)
      (upTo : ∀ char ∈ (rest ++ later).head?, char = '\n') (layout : Layout later rest) :
      Layout later ('#' :: (body ++ rest))

/-- What is passed over in front of a text: the rest of a comment, if that is where
it starts, and then layout.  Only after a line feed does it hold others. -/
structure PassedOver (afterNewline inComment : Bool) (body gap later : List Char) : Prop where
  inLine : '\n' ∉ body
  outside : inComment = false → body = []
  upTo : inComment = true → ∀ char ∈ (gap ++ later).head?, char = '\n'
  layout : Layout later gap
  quiet : afterNewline = false → '\n' ∉ gap

theorem passedOver_nil {afterNewline inComment : Bool} {later : List Char}
    (upTo : inComment = true → ∀ char ∈ later.head?, char = '\n') :
    PassedOver afterNewline inComment [] [] later :=
  ⟨List.not_mem_nil, fun _ => rfl, upTo, .none, fun _ => List.not_mem_nil⟩

/-- A comment that is opened runs through what is passed over inside it. -/
theorem PassedOver.open {afterNewline : Bool} {body gap later : List Char}
    (passed : PassedOver afterNewline true body gap later) :
    PassedOver afterNewline false [] ('#' :: (body ++ gap)) later where
  inLine := List.not_mem_nil
  outside _ := rfl
  upTo := nofun
  layout := .comment passed.inLine (passed.upTo rfl) passed.layout
  quiet isAfter := by simp [passed.inLine, passed.quiet isAfter]

theorem passedOver_of_skipLayout {afterNewline inComment : Bool} {chars later : List Char}
    {position stop : Nat}
    (skipped : skipLayout afterNewline inComment chars position = (later, stop)) :
    ∃ body gap, chars = body ++ gap ++ later ∧ stop = position + byteLength (body ++ gap) ∧
      PassedOver afterNewline inComment body gap later := by
  fun_induction skipLayout afterNewline inComment chars position with
  | case1 inComment position =>
      cases skipped
      exact ⟨[], [], rfl, rfl, passedOver_nil (by simp)⟩
  | case2 inComment rest position isAfter inductionHypothesis =>
      obtain ⟨body, gap, rfl, rfl, passed⟩ := inductionHypothesis skipped
      cases passed.outside rfl
      refine ⟨[], '\n' :: gap, rfl, ?_, List.not_mem_nil, fun _ => rfl, ?_, ?_, ?_⟩
      · have size : '\n'.utf8Size = 1 := by decide
        simp only [List.nil_append, byteLength_cons, size]
        omega
      · intro _ char isFirst
        exact (Option.some.inj isFirst).symm
      · exact .blank (by decide) passed.layout
      · simp [isAfter]
  | case3 inComment rest position notAfter =>
      cases skipped
      refine ⟨[], [], rfl, rfl, passedOver_nil fun _ char isFirst => ?_⟩
      exact (Option.some.inj isFirst).symm
  | case4 inComment char rest position notNewline commented inductionHypothesis =>
      obtain ⟨body, gap, rfl, rfl, passed⟩ := inductionHypothesis skipped
      cases inComment with
      | true =>
          refine ⟨char :: body, gap, rfl, ?_, ?_, by simp, passed.upTo, passed.layout, passed.quiet⟩
          · simp only [List.cons_append, byteLength_cons]
            omega
          · simp [passed.inLine, Ne.symm notNewline]
      | false =>
          have isComment : char = '#' := by simpa using commented
          subst isComment
          refine ⟨[], '#' :: (body ++ gap), rfl, ?_, passed.open⟩
          simp only [List.nil_append, byteLength_cons]
          omega
  | case5 inComment char rest position notNewline notComment blank inductionHypothesis =>
      obtain ⟨body, gap, rfl, rfl, passed⟩ := inductionHypothesis skipped
      cases passed.outside rfl
      refine ⟨[], char :: gap, rfl, ?_, List.not_mem_nil, fun _ => rfl, ?_, ?_, ?_⟩
      · simp only [List.nil_append, byteLength_cons]
        omega
      · intro isInside
        simp [isInside] at notComment
      · exact .blank blank passed.layout
      · intro isAfter
        simp [Ne.symm notNewline, passed.quiet isAfter]
  | case6 inComment char rest position notNewline notComment notBlank =>
      cases skipped
      refine ⟨[], [], rfl, rfl, passedOver_nil fun isInside => ?_⟩
      simp [isInside] at notComment

/-- After a line feed no other one is left. -/
theorem head_ne_newline_of_skipLayout {afterNewline inComment : Bool} {chars rest : List Char}
    {position stop : Nat} {first : Char} (isAfter : afterNewline = true)
    (skipped : skipLayout afterNewline inComment chars position = (first :: rest, stop)) :
    first ≠ '\n' := by
  fun_induction skipLayout afterNewline inComment chars position with
  | case1 => cases skipped
  | case2 _ _ _ _ inductionHypothesis => exact inductionHypothesis skipped
  | case3 _ _ _ notAfter => exact absurd isAfter notAfter
  | case4 _ _ _ _ _ _ inductionHypothesis => exact inductionHypothesis skipped
  | case5 _ _ _ _ _ _ _ inductionHypothesis => exact inductionHypothesis skipped
  | case6 _ _ _ _ notNewline =>
      cases skipped
      exact notNewline

/-! ## Spellings -/

namespace TokenKind

/-- Whether a text spells a token of a kind.  The value of an integer is the decimal
one of its digits. -/
def SpelledBy (text : List Char) : TokenKind → Prop
  | .identifier name => text = name.toList
  | .integer value =>
      (∀ char ∈ text, char.isDigit = true) ∧ value.toInt = Nat.ofDigitChars 10 text 0
  | .keyword word => text = word.spelling.toList
  | .symbol sign => text = sign.spelling.toList
  | .newline => text = ['\n']
  | .endOfInput => text = []

/-- Whether a text may stand right after a token of a kind, which would be longer
otherwise. -/
def MayPrecede (later : List Char) : TokenKind → Prop
  | .identifier _ | .keyword _ => later.head?.any isWordChar = false
  | .integer _ => later.head?.any Char.isDigit = false
  | .symbol .less | .symbol .greater => later.head? ≠ some '='
  | .symbol _ | .newline | .endOfInput => True

end TokenKind

/-- Whether a text reads `is not`, and not as a part of a longer word. -/
def StartsIsNot (text : List Char) : Prop :=
  ∃ later, text = "is not".toList ++ later ∧ later.head?.any isWordChar = false

/-- What reading a lexeme takes: a spelling that what is left does not continue. -/
structure Taken (kind : TokenKind) (lexeme later : List Char) : Prop where
  notNewline : kind ≠ .newline
  notEnd : kind ≠ .endOfInput
  nonempty : lexeme ≠ []
  spelled : kind.SpelledBy lexeme
  apart : kind.MayPrecede later
  isNot : kind = .keyword .is → ¬ StartsIsNot (lexeme ++ later)

variable {features : FeatureSet} {kind : TokenKind} {first : Char} {rest : List Char}

theorem any_head?_dropWhile (test : Char → Bool) (chars : List Char) :
    (chars.dropWhile test).head?.any test = false := by
  have fails := List.head?_dropWhile_not test chars
  cases head : (chars.dropWhile test).head? with
  | none => rfl
  | some char =>
      rw [head] at fails
      exact fails

theorem taken_of_readWord (wordStart : isWordStart first = true)
    (notIsNot : ¬ StartsIsNot (first :: rest))
    (read : (readWord features (first :: rest)).outcome = .ok kind) :
    Taken kind (readWord features (first :: rest)).taken
      (readWord features (first :: rest)).rest := by
  have nonempty : (first :: rest).takeWhile isWordChar ≠ [] := by
    simp [isWordChar_of_isWordStart wordStart]
  have isNot : ¬ StartsIsNot
      ((first :: rest).takeWhile isWordChar ++ (first :: rest).dropWhile isWordChar) := by
    rw [List.takeWhile_append_dropWhile]
    exact notIsNot
  have apart := any_head?_dropWhile isWordChar (first :: rest)
  simp only [readWord, Except.ok.injEq] at read
  split at read
  · next keyword found =>
      subst read
      obtain ⟨spelling, _⟩ := Keyword.ofWord?_eq_some_iff.mp found
      refine ⟨by simp, by simp, nonempty, ?_, apart, fun _ => isNot⟩
      rw [TokenKind.SpelledBy, spelling, String.toList_ofList, readWord]
  · subst read
    refine ⟨by simp, by simp, nonempty, ?_, apart, by simp⟩
    rw [TokenKind.SpelledBy, String.toList_ofList, readWord]

theorem taken_of_readInteger {position : Nat} (digit : first.isDigit = true)
    (read : (readInteger position (first :: rest)).outcome = .ok kind) :
    Taken kind (readInteger position (first :: rest)).taken
      (readInteger position (first :: rest)).rest := by
  have nonempty : (first :: rest).takeWhile Char.isDigit ≠ [] := by simp [digit]
  have apart := any_head?_dropWhile Char.isDigit (first :: rest)
  simp only [readInteger] at read
  split at read
  · next small =>
      cases read
      refine ⟨by simp, by simp, nonempty, ⟨?_, Int64.toInt_ofNat_of_lt small⟩, apart, by simp⟩
      exact fun char member => List.all_eq_true.mp List.all_takeWhile char member
  · cases read

theorem Symbol.exists_later_of_front? {chars : List Char} {sign : Symbol}
    (found : front? chars = some sign) :
    ∃ later, chars = sign.spelling.toList ++ later ∧
      (TokenKind.symbol sign).MayPrecede later := by
  unfold front? at found
  split at found
  case h_8 later notEqual | h_9 later notEqual =>
    cases found
    refine ⟨later, rfl, fun isEqual => ?_⟩
    obtain ⟨more, isMore⟩ := List.head?_eq_some_iff.mp isEqual
    exact notEqual more isMore
  case h_19 => cases found
  all_goals
    cases found
    exact ⟨_, rfl, trivial⟩

theorem taken_of_readSymbol {position : Nat}
    (read : (readSymbol features position first (first :: rest)).outcome = .ok kind) :
    Taken kind (readSymbol features position first (first :: rest)).taken
      (readSymbol features position first (first :: rest)).rest := by
  unfold readSymbol at read ⊢
  split at read
  · next sign found =>
      cases read
      obtain ⟨later, isText, apart⟩ :=
        Symbol.exists_later_of_front? (Option.filter_eq_some_iff.mp found).1
      have length : sign.spelling.length = sign.spelling.toList.length :=
        String.length_toList.symm
      simp only [isText, length, List.take_left, List.drop_left]
      refine ⟨nofun, nofun, ?_, rfl, apart, nofun⟩
      cases sign <;> decide
  · cases read

theorem taken_of_readLexeme {position : Nat}
    (read : (readLexeme features position first rest).outcome = .ok kind) :
    Taken kind (readLexeme features position first rest).taken
      (readLexeme features position first rest).rest := by
  unfold readLexeme at read ⊢
  split at read
  · next later found =>
      cases read
      obtain ⟨_, apart⟩ := afterIsNot?_eq_some_iff.mp found
      exact ⟨nofun, nofun, List.cons_ne_nil _ _, rfl, apart, nofun⟩
  · next notFound =>
      have notIsNot : ¬ StartsIsNot (first :: rest) := by
        rintro ⟨later, isText, apart⟩
        cases notFound.symm.trans (afterIsNot?_eq_some_iff.mpr ⟨isText, apart⟩)
      by_cases wordStart : isWordStart first = true
      · rw [if_pos wordStart] at read ⊢
        exact taken_of_readWord wordStart notIsNot read
      · rw [if_neg wordStart] at read ⊢
        by_cases digit : first.isDigit = true
        · rw [if_pos digit] at read ⊢
          exact taken_of_readInteger digit read
        · rw [if_neg digit] at read ⊢
          exact taken_of_readSymbol read

/-! ## Tokens -/

/-- What reading a token takes from a text at a cursor: layout, then a lexeme. -/
structure Cut (cursor : Cursor) (token : Token) (next : Cursor) (gap lexeme : List Char) :
    Prop where
  text : cursor.rest = gap ++ lexeme ++ next.rest
  start : token.start = cursor.position + byteLength gap
  stop : token.stop = token.start + byteLength lexeme
  position : next.position = token.stop
  layout : Layout (lexeme ++ next.rest) gap
  quiet : cursor.afterNewline = false → '\n' ∉ gap
  spelled : token.kind.SpelledBy lexeme
  apart : token.kind.MayPrecede next.rest
  isNot : token.kind = .keyword .is → ¬ StartsIsNot (lexeme ++ next.rest)
  nonempty : token.kind ≠ .endOfInput → lexeme ≠ []
  last : token.kind = .endOfInput → next.rest = []
  alternates : cursor.afterNewline = true → token.kind ≠ .newline
  afterNewline : token.kind ≠ .endOfInput → (next.afterNewline = true ↔ token.kind = .newline)

theorem exists_cut_of_scan {cursor next : Cursor} {token : Token}
    (scanned : scan features cursor = (.ok token, next)) :
    ∃ gap lexeme, Cut cursor token next gap lexeme := by
  unfold scan at scanned
  split at scanned
  · next position skipped =>
      obtain ⟨body, gap, isText, isStop, passed⟩ := passedOver_of_skipLayout skipped
      cases passed.outside rfl
      cases scanned
      exact ⟨gap, [], {
        text := by rw [isText, List.nil_append, List.append_assoc, List.nil_append]
        start := isStop
        stop := rfl
        position := rfl
        layout := passed.layout
        quiet := passed.quiet
        spelled := rfl
        apart := trivial
        isNot := nofun
        nonempty := fun notEnd => absurd rfl notEnd
        last := fun _ => rfl
        alternates := nofun
        afterNewline := fun notEnd => absurd rfl notEnd }⟩
  · next first rest position skipped =>
      obtain ⟨body, gap, isText, isStop, passed⟩ := passedOver_of_skipLayout skipped
      cases passed.outside rfl
      split at scanned
      · next isNewline =>
          cases isNewline
          cases scanned
          exact ⟨gap, ['\n'], {
            text := by rw [isText, List.nil_append, List.append_assoc, List.singleton_append]
            start := isStop
            stop := rfl
            position := rfl
            layout := passed.layout
            quiet := passed.quiet
            spelled := rfl
            apart := trivial
            isNot := nofun
            nonempty := fun _ => List.cons_ne_nil _ _
            last := nofun
            alternates := fun isAfter => absurd rfl (head_ne_newline_of_skipLayout isAfter skipped)
            afterNewline := fun _ => iff_of_true rfl rfl }⟩
      · next notNewline =>
          cases outcome : (readLexeme features position first rest).outcome with
          | error failure => simp [outcome, Except.map] at scanned
          | ok kind =>
              simp only [outcome, Except.map, Prod.mk.injEq, Except.ok.injEq] at scanned
              obtain ⟨rfl, rfl⟩ := scanned
              have whole := readLexeme_taken_append_rest features position first rest
              have taken := taken_of_readLexeme outcome
              exact ⟨gap, (readLexeme features position first rest).taken, {
                text := by rw [isText, List.nil_append, List.append_assoc, whole]
                start := isStop
                stop := rfl
                position := rfl
                layout := by rw [whole]; exact passed.layout
                quiet := passed.quiet
                spelled := taken.spelled
                apart := taken.apart
                isNot := taken.isNot
                nonempty := fun _ => taken.nonempty
                last := fun isEnd => absurd isEnd taken.notEnd
                alternates := fun _ => taken.notNewline
                afterNewline := fun _ => iff_of_false nofun taken.notNewline }⟩

/-! ## Reading what is cut -/

/-- Layout stays layout where another text comes after it that starts alike, or with a
line feed. -/
theorem Layout.of_head? {later other gap : List Char} (layout : Layout later gap)
    (alike : ∀ char ∈ other.head?, char = '\n' ∨ char ∈ later.head?) : Layout other gap := by
  induction layout with
  | none => exact .none
  | blank isBlank _ inductionHypothesis => exact .blank isBlank inductionHypothesis
  | @comment body rest inLine upTo _ inductionHypothesis =>
      refine .comment inLine (fun char isFirst => ?_) inductionHypothesis
      cases rest with
      | nil =>
          rcases alike char isFirst with isNewline | isFirst
          · exact isNewline
          · exact upTo char isFirst
      | cons first rest => exact upTo char isFirst

theorem skipLayout_comment {afterNewline : Bool} {body later : List Char} {position : Nat}
    (inLine : '\n' ∉ body) (upTo : ∀ char ∈ later.head?, char = '\n') :
    skipLayout afterNewline true (body ++ later) position =
      skipLayout afterNewline false later (position + byteLength body) := by
  induction body generalizing position with
  | nil =>
      cases later with
      | nil => rfl
      | cons char later =>
          obtain rfl := upTo char rfl
          rfl
  | cons char body inductionHypothesis =>
      obtain ⟨notNewline, inLine⟩ := List.ne_and_not_mem_of_not_mem_cons inLine
      rw [List.cons_append, skipLayout, if_neg (Ne.symm notNewline), Bool.true_or, if_pos rfl,
        inductionHypothesis inLine, byteLength_cons, Nat.add_assoc]

/-- Layout is passed over, whatever comes after it. -/
theorem skipLayout_of_layout {afterNewline : Bool} {gap later : List Char} {position : Nat}
    (layout : Layout later gap) (quiet : afterNewline = false → '\n' ∉ gap) :
    skipLayout afterNewline false (gap ++ later) position =
      skipLayout afterNewline false later (position + byteLength gap) := by
  induction layout generalizing position with
  | none => rfl
  | @blank char rest isBlank _ inductionHypothesis =>
      have quietRest : afterNewline = false → '\n' ∉ rest :=
        fun isQuiet member => quiet isQuiet (List.mem_cons_of_mem _ member)
      have moved := @inductionHypothesis (position + char.utf8Size) quietRest
      rw [List.cons_append, skipLayout, byteLength_cons, ← Nat.add_assoc, ← moved]
      by_cases isNewline : char = '\n'
      · subst isNewline
        have isAfter : afterNewline = true := by
          cases afterNewline with
          | true => rfl
          | false => exact absurd List.mem_cons_self (quiet rfl)
        have size : '\n'.utf8Size = 1 := by decide
        rw [if_pos rfl, if_pos isAfter, size]
      · have notComment : char ≠ '#' := by
          rintro rfl
          exact absurd isBlank (by decide)
        rw [if_neg isNewline, if_neg (by simp [notComment]), if_pos isBlank]
  | @comment body rest inLine upTo _ inductionHypothesis =>
      have quietRest : afterNewline = false → '\n' ∉ rest := by
        intro isQuiet member
        exact quiet isQuiet (List.mem_cons_of_mem _ (List.mem_append_right _ member))
      have size : '#'.utf8Size = 1 := by decide
      rw [List.cons_append, List.append_assoc, skipLayout, if_neg (by decide), if_pos (by decide),
        skipLayout_comment inLine upTo, inductionHypothesis quietRest]
      simp only [byteLength_cons, byteLength_append]
      congr 1
      omega

theorem scan_of_layout {afterNewline : Bool} {gap later : List Char} {position : Nat}
    (layout : Layout later gap) (quiet : afterNewline = false → '\n' ∉ gap) :
    scan features ⟨gap ++ later, position, afterNewline⟩ =
      scan features ⟨later, position + byteLength gap, afterNewline⟩ := by
  simp only [scan, skipLayout_of_layout layout quiet]

/-- A spelling of a token is read as that token in front of what may follow it. -/
theorem lexesTo_of_spelled {lexeme later : List Char} (readable : kind.Readable features)
    (notNewline : kind ≠ .newline) (notEnd : kind ≠ .endOfInput) (nonempty : lexeme ≠ [])
    (spelled : kind.SpelledBy lexeme) (apart : kind.MayPrecede later)
    (isNot : kind = .keyword .is → ¬ StartsIsNot (lexeme ++ later)) :
    LexesTo features lexeme kind later := by
  cases kind with
  | identifier name =>
      cases spelled
      exact lexesTo_identifier apart readable
  | integer value =>
      obtain ⟨number, small, rfl⟩ := readable
      obtain ⟨inside, isValue⟩ := spelled
      rw [Int64.toInt_ofNat_of_lt small, Int.ofNat_inj] at isValue
      subst isValue
      exact lexesTo_digits nonempty inside apart small
  | keyword word =>
      cases spelled
      by_cases single : word = .isNot
      · subst single
        exact lexesTo_isNot apart
      · by_cases isIs : word = .is
        · subst isIs
          apply lexesTo_keywordOf apart single readable
          cases found : afterIsNot? (Keyword.is.spelling.toList ++ later) with
          | none => rfl
          | some rest => exact absurd ⟨rest, afterIsNot?_eq_some_iff.mp found⟩ (isNot rfl)
        · exact lexesTo_keyword apart isIs single readable
  | symbol sign =>
      cases spelled
      apply lexesTo_symbol readable
      rintro (rfl | rfl)
      · exact apart
      · exact apart
  | newline => contradiction
  | endOfInput => contradiction

/-- Where a lexeme is read no layout starts. -/
theorem LexesTo.stays {lexeme later : List Char} (lexes : LexesTo features lexeme kind later)
    (afterNewline : Bool) (position : Nat) :
    skipLayout afterNewline false (lexeme ++ later) position = (lexeme ++ later, position) := by
  obtain ⟨notEnd, scans⟩ := lexes
  obtain ⟨stop, scanned⟩ := scans position
  unfold scan at scanned
  split at scanned
  · cases scanned
    exact absurd rfl notEnd
  · next first rest start skipped =>
      obtain ⟨body, gap, isText, isStart, passed⟩ := passedOver_of_skipLayout skipped
      by_cases isNewline : first = '\n'
      · rw [if_pos isNewline] at scanned
        cases scanned
      · rw [if_neg isNewline] at scanned
        cases outcome : (readLexeme features start first rest).outcome with
        | error failure => simp [outcome, Except.map] at scanned
        | ok other =>
            -- The token starts where reading does, so nothing is passed over.
            simp only [outcome, Except.map, Prod.mk.injEq, Except.ok.injEq, Token.mk.injEq]
              at scanned
            obtain ⟨⟨_, sameStart, _⟩, _⟩ := scanned
            change start = position + _ at isStart
            change lexeme ++ later = _ at isText
            have nothing : body ++ gap = [] := byteLength_eq_zero_iff.mp (by omega)
            rw [nothing, List.nil_append] at isText
            rw [isText]
            exact skipLayout_of_starts isNewline (starts_of_skipLayout skipped isNewline)

/-- Layout in front of a lexeme is passed over. -/
theorem LexesTo.exists_scan {gap lexeme later : List Char} {afterNewline : Bool}
    (lexes : LexesTo features lexeme kind later) (layout : Layout (lexeme ++ later) gap)
    (quiet : afterNewline = false → '\n' ∉ gap) (position : Nat) :
    ∃ start stop, scan features ⟨gap ++ (lexeme ++ later), position, afterNewline⟩ =
      (.ok ⟨kind, start, stop⟩, ⟨later, stop, false⟩) := by
  obtain ⟨stop, scanned⟩ := lexes.2 (position + byteLength gap)
  refine ⟨position + byteLength gap, stop, ?_⟩
  rw [scan_of_layout layout quiet]
  unfold scan at scanned ⊢
  simp only [lexes.stays] at scanned ⊢
  cases text : lexeme ++ later with
  | nil =>
      simp only [text, Prod.mk.injEq, Except.ok.injEq, Token.mk.injEq] at scanned
      exact absurd scanned.1.1.symm lexes.1
  | cons first rest =>
      simp only [text] at scanned ⊢
      exact scanned

/-- A token is read again with other text after it, if it may precede that. -/
theorem exists_scan_of_cut {cursor next : Cursor} {token : Token} {gap lexeme later : List Char}
    (cut : Cut cursor token next gap lexeme) (readable : token.kind.Readable features)
    (notEnd : token.kind ≠ .endOfInput) (apart : token.kind.MayPrecede later)
    (isNot : token.kind = .keyword .is → ¬ StartsIsNot (lexeme ++ later)) (position : Nat) :
    ∃ other otherPosition, other.kind = token.kind ∧
      scan features ⟨gap ++ (lexeme ++ later), position, cursor.afterNewline⟩ =
        (.ok other, ⟨later, otherPosition, next.afterNewline⟩) := by
  obtain ⟨char, rest, rfl⟩ := List.exists_cons_of_ne_nil (cut.nonempty notEnd)
  have layout : Layout (char :: rest ++ later) gap :=
    cut.layout.of_head? fun _ isFirst => .inr isFirst
  by_cases isNewline : token.kind = .newline
  · have spelled := cut.spelled
    rw [isNewline] at spelled
    cases spelled
    have isBefore : cursor.afterNewline = false :=
      Bool.eq_false_iff.mpr fun isAfter => cut.alternates isAfter isNewline
    refine ⟨⟨.newline, position + byteLength gap, position + byteLength gap + 1⟩,
      position + byteLength gap + 1, isNewline.symm, ?_⟩
    rw [(cut.afterNewline notEnd).mpr isNewline, scan_of_layout layout cut.quiet, isBefore]
    rfl
  · have isLine : next.afterNewline = false :=
      Bool.eq_false_iff.mpr (mt (cut.afterNewline notEnd).mp isNewline)
    have lexes := lexesTo_of_spelled readable isNewline notEnd (cut.nonempty notEnd) cut.spelled
      apart isNot
    obtain ⟨start, stop, scanned⟩ := lexes.exists_scan layout cut.quiet position
    rw [isLine]
    exact ⟨⟨token.kind, start, stop⟩, stop, rfl, scanned⟩

end Scriptlet
