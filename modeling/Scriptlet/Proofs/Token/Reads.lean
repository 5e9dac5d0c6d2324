import Scriptlet.Proofs.Token.Run

/-!
Contract: which texts are cut into which tokens, one lexeme at a time.

Owns:
- the relation between a text and the kinds of the tokens it is cut into;
- one rule for each lexeme put in front of a text, with what may follow it.

A word or a literal ends where no word character follows, `<` and `>` end where
no `=` follows, and `is` ends where the word `not` does not follow.
-/

namespace Scriptlet

open Text

variable {features : FeatureSet} {chars : List Char} {kinds : List TokenKind}

/-- Whether a text, standing after a token that is no line feed, is cut into
tokens of the given kinds without failure. -/
def Reads (features : FeatureSet) (chars : List Char) (kinds : List TokenKind) : Prop :=
  ∀ position, (scanAll features ⟨chars, position, false⟩).failure = none ∧
    (scanAll features ⟨chars, position, false⟩).kinds = kinds

/-- Whether a text does not go on with a word that ends right before it. -/
def StartsApart (chars : List Char) : Prop :=
  chars.head?.any isWordChar = false

/-! ## One step -/

theorem scanAll_eq (cursor : Cursor) :
    scanAll features cursor =
      match scan features cursor with
      | (.error failure, _) => ⟨[], some failure⟩
      | (.ok token, next) =>
          if token.kind = .endOfInput then ⟨[token], none⟩
          else (scanAll features next).cons token := by
  rw [scanAll]
  split
  · next failure _ scanned => rw [scanned]
  · next token next scanned =>
      simp only [scanned, dite_eq_ite]

theorem scanAll_of_scan {cursor next : Cursor} {token : Token}
    (scanned : scan features cursor = (.ok token, next)) (notEnd : token.kind ≠ .endOfInput) :
    scanAll features cursor = (scanAll features next).cons token := by
  rw [scanAll_eq, scanned]
  exact if_neg notEnd

/-- The end of a text is the end of input. -/
theorem reads_nil : Reads features [] [.endOfInput] := by
  intro position
  have isEnd : scanAll features ⟨[], position, false⟩ =
      ⟨[⟨.endOfInput, position, position⟩], none⟩ := by
    rw [scanAll_eq]
    rfl
  rw [isEnd]
  exact ⟨rfl, rfl⟩

/-- A space in front of a text is passed over. -/
theorem Reads.space (reads : Reads features chars kinds) : Reads features (' ' :: chars) kinds := by
  intro position
  have skips : scan features ⟨' ' :: chars, position, false⟩ =
      scan features ⟨chars, position + 1, false⟩ := rfl
  have same : scanAll features ⟨' ' :: chars, position, false⟩ =
      scanAll features ⟨chars, position + 1, false⟩ := by
    rw [scanAll_eq, skips, ← scanAll_eq]
  rw [same]
  exact reads (position + 1)

/-- Spaces in front of a text are passed over. -/
theorem Reads.spaces (reads : Reads features chars kinds) (count : Nat) :
    Reads features (List.replicate count ' ' ++ chars) kinds := by
  induction count with
  | zero => exact reads
  | succ count inductionHypothesis =>
      rw [List.replicate_succ, List.cons_append]
      exact inductionHypothesis.space

/-- Layout stops at the same place after a line feed, unless it stops at one. -/
theorem skipLayout_afterNewline {inComment : Bool} {position : Nat}
    (notNewline : ∀ rest stop, skipLayout false inComment chars position ≠ ('\n' :: rest, stop)) :
    skipLayout true inComment chars position = skipLayout false inComment chars position := by
  induction chars generalizing inComment position with
  | nil => rfl
  | cons char rest inductionHypothesis =>
      unfold skipLayout at notNewline ⊢
      by_cases isNewline : char = '\n'
      · simp [isNewline] at notNewline
      · simp only [isNewline, ↓reduceIte] at notNewline ⊢
        split
        · next comment =>
            simp only [comment, ↓reduceIte] at notNewline
            exact inductionHypothesis notNewline
        · next noComment =>
            simp only [noComment] at notNewline
            split
            · next blank =>
                simp only [blank, ↓reduceIte] at notNewline
                exact inductionHypothesis notNewline
            · rfl

/-- After a line feed a text is cut as before, unless it starts with another
line feed. -/
theorem Reads.afterNewline (reads : Reads features chars kinds)
    (notNewline : kinds.head? ≠ some .newline) (position : Nat) :
    (scanAll features ⟨chars, position, true⟩).failure = none ∧
      (scanAll features ⟨chars, position, true⟩).kinds = kinds := by
  have same : skipLayout true false chars position = skipLayout false false chars position := by
    apply skipLayout_afterNewline
    intro rest stop skipped
    have scanned : scan features ⟨chars, position, false⟩ =
        (.ok ⟨.newline, stop, stop + 1⟩, ⟨rest, stop + 1, true⟩) := by
      simp [scan, skipped]
    have found := (reads position).2
    rw [scanAll_of_scan scanned (by simp), TokenRun.kinds_cons] at found
    rw [← found] at notNewline
    exact notNewline rfl
  have found := reads position
  rw [scanAll_eq] at found ⊢
  unfold scan at found ⊢
  -- At the end of the text the two cursors differ, but the end of input is last.
  rcases skipped : skipLayout false false chars position with ⟨_ | ⟨first, rest⟩, stop⟩
  · simp only [same, skipped] at found ⊢
    exact found
  · simp only [same, skipped] at found ⊢
    exact found

/-- A line feed is a token of its own. -/
theorem Reads.newline (reads : Reads features chars kinds)
    (notNewline : kinds.head? ≠ some .newline) :
    Reads features ('\n' :: chars) (.newline :: kinds) := by
  intro position
  have scanned : scan features ⟨'\n' :: chars, position, false⟩ =
      (.ok ⟨.newline, position, position + 1⟩, ⟨chars, position + 1, true⟩) := rfl
  obtain ⟨finished, isAll⟩ := reads.afterNewline notNewline (position + 1)
  rw [scanAll_of_scan scanned (by simp)]
  exact ⟨finished, by rw [TokenRun.kinds_cons, isAll]⟩

/-! ## Lexemes -/

/-- Whether a lexeme is read as a token of a kind where it stands before a
text. -/
def LexesTo (features : FeatureSet) (lexeme : List Char) (kind : TokenKind)
    (chars : List Char) : Prop :=
  kind ≠ .endOfInput ∧
    ∀ position, ∃ stop, scan features ⟨lexeme ++ chars, position, false⟩ =
      (.ok ⟨kind, position, stop⟩, ⟨chars, stop, false⟩)

/-- A lexeme in front of a text gives its token first. -/
theorem LexesTo.reads {lexeme : List Char} {kind : TokenKind}
    (lexes : LexesTo features lexeme kind chars) (reads : Reads features chars kinds) :
    Reads features (lexeme ++ chars) (kind :: kinds) := by
  intro position
  obtain ⟨stop, scanned⟩ := lexes.2 position
  obtain ⟨finished, isAll⟩ := reads stop
  rw [scanAll_of_scan scanned lexes.1]
  exact ⟨finished, by rw [TokenRun.kinds_cons, isAll]⟩

theorem LexesTo.head? {lexeme : List Char} {kind : TokenKind}
    (lexes : LexesTo features lexeme kind chars)
    (reads : Reads features (lexeme ++ chars) kinds) : kinds.head? = some kind := by
  obtain ⟨stop, scanned⟩ := lexes.2 0
  rw [← (reads 0).2, scanAll_of_scan scanned lexes.1]
  rfl

theorem lexesTo_of_readLexeme {first : Char} {rest : List Char} {kind : TokenKind}
    (starts : first ≠ '\n' ∧ first ≠ '#' ∧ isBlank first = false)
    (notEnd : kind ≠ .endOfInput)
    (read : ∀ position, (readLexeme features position first (rest ++ chars)).outcome = .ok kind)
    (left : ∀ position, (readLexeme features position first (rest ++ chars)).rest = chars) :
    LexesTo features (first :: rest) kind chars := by
  refine ⟨notEnd, fun position => ?_⟩
  obtain ⟨notNewline, notComment, notBlank⟩ := starts
  have stays : skipLayout false false (first :: (rest ++ chars)) position =
      (first :: (rest ++ chars), position) := by
    simp [skipLayout, notNewline, notComment, notBlank]
  refine ⟨position + byteLength (readLexeme features position first (rest ++ chars)).taken, ?_⟩
  simp only [scan, List.cons_append, stays, notNewline, ↓reduceIte, read position,
    left position, Except.map]

/-- What is taken from a run of characters that a text does not go on with is
the run, and what is left is the text. -/
theorem takeWhile_dropWhile_append {test : Char → Bool} {word : List Char}
    (inside : ∀ char ∈ word, test char = true) (outside : chars.head?.any test = false) :
    (word ++ chars).takeWhile test = word ∧ (word ++ chars).dropWhile test = chars := by
  rw [List.takeWhile_append_of_pos inside, List.dropWhile_append_of_pos inside]
  cases chars with
  | nil => simp
  | cons char rest =>
      simp only [List.head?_cons, Option.any_some] at outside
      simp [outside]

/-! ## Words -/

theorem afterIsNot?_eq_some_iff {later : List Char} :
    afterIsNot? chars = some later ↔ chars = "is not".toList ++ later ∧ StartsApart later := by
  constructor
  · intro found
    obtain rfl := eq_append_of_afterIsNot? found
    refine ⟨rfl, ?_⟩
    simp only [StartsApart]
    simpa [afterIsNot?] using found
  · rintro ⟨rfl, apart⟩
    simp only [StartsApart] at apart
    simp [afterIsNot?, apart]

/-- The words `is not` do not stand where a word other than `is` does. -/
theorem afterIsNot?_eq_none {word : List Char}
    (inside : ∀ char ∈ word, isWordChar char = true) (apart : StartsApart chars)
    (notIs : word ≠ ['i', 's']) : afterIsNot? (word ++ chars) = none := by
  cases found : afterIsNot? (word ++ chars) with
  | none => rfl
  | some later =>
      have taken := (takeWhile_dropWhile_append inside apart).1
      rw [eq_append_of_afterIsNot? found] at taken
      exact absurd taken.symm notIs

/-- A word is read as the keyword it is, or as a name. -/
theorem lexesTo_word {first : Char} {rest : List Char} {kind : TokenKind}
    (apart : StartsApart chars)
    (starts : first ≠ '\n' ∧ first ≠ '#' ∧ isBlank first = false)
    (wordStart : isWordStart first = true) (inside : ∀ char ∈ rest, isWordChar char = true)
    (notIsNot : afterIsNot? (first :: rest ++ chars) = none)
    (isKind : kind = match Keyword.ofWord? features (String.ofList (first :: rest)) with
      | some keyword => .keyword keyword
      | none => .identifier (String.ofList (first :: rest))) :
    LexesTo features (first :: rest) kind chars := by
  have allInside : ∀ char ∈ first :: rest, isWordChar char = true :=
    List.forall_mem_cons.mpr ⟨isWordChar_of_isWordStart wordStart, inside⟩
  obtain ⟨taken, left⟩ := takeWhile_dropWhile_append allInside apart
  rw [List.cons_append] at notIsNot taken left
  apply lexesTo_of_readLexeme starts
  · rw [isKind]
    split <;> simp
  · intro position
    simp only [readLexeme, notIsNot, wordStart, ↓reduceIte, readWord, taken]
    exact congrArg Except.ok isKind.symm
  · intro position
    simp only [readLexeme, notIsNot, wordStart, ↓reduceIte, readWord, left]

theorem lexesTo_identifier {name : String} (apart : StartsApart chars)
    (readable : (TokenKind.identifier name).Readable features) :
    LexesTo features name.toList (.identifier name) chars := by
  obtain ⟨first, rest, rfl, starts, wordStart, inside, notKeyword⟩ := readable
  rw [String.toList_ofList]
  have notIs : first :: rest ≠ ['i', 's'] := by
    intro isIs
    rw [isIs] at notKeyword
    have isKeyword : Keyword.ofWord? features (String.ofList ['i', 's']) = some .is := rfl
    rw [isKeyword] at notKeyword
    cases notKeyword
  have allInside : ∀ char ∈ first :: rest, isWordChar char = true :=
    List.forall_mem_cons.mpr ⟨isWordChar_of_isWordStart wordStart, inside⟩
  apply lexesTo_word apart starts wordStart inside
  · exact afterIsNot?_eq_none allInside apart notIs
  · rw [notKeyword]

theorem Keyword.ofWord?_spelling {keyword : Keyword} (single : keyword ≠ .isNot)
    (allowed : keyword.gate.all features.has = true) :
    Keyword.ofWord? features keyword.spelling = some keyword := by
  cases keyword with
  | isNot => contradiction
  | _ => simp_all [ofWord?, all, spelling, gate]

/-- Every keyword but `is not` is one word. -/
theorem Keyword.spelling_isWord {keyword : Keyword} (single : keyword ≠ .isNot) :
    ∃ first rest, keyword.spelling.toList = first :: rest ∧
      (first ≠ '\n' ∧ first ≠ '#' ∧ isBlank first = false) ∧
      isWordStart first = true ∧ ∀ char ∈ rest, isWordChar char = true := by
  cases keyword with
  | isNot => contradiction
  | _ =>
      refine ⟨_, _, rfl, by decide +kernel, by decide +kernel, List.all_eq_true.mp ?_⟩
      decide +kernel

/-- A keyword of one word is read where `is not` does not stand. -/
theorem lexesTo_keywordOf {keyword : Keyword} (apart : StartsApart chars)
    (single : keyword ≠ .isNot) (allowed : keyword.gate.all features.has = true)
    (notIsNot : afterIsNot? (keyword.spelling.toList ++ chars) = none) :
    LexesTo features keyword.spelling.toList (.keyword keyword) chars := by
  obtain ⟨first, rest, isWord, starts, wordStart, inside⟩ := Keyword.spelling_isWord single
  rw [isWord] at notIsNot ⊢
  apply lexesTo_word apart starts wordStart inside notIsNot
  rw [← isWord, String.ofList_toList, Keyword.ofWord?_spelling single allowed]

theorem lexesTo_keyword {keyword : Keyword} (apart : StartsApart chars) (notIs : keyword ≠ .is)
    (single : keyword ≠ .isNot) (allowed : keyword.gate.all features.has = true) :
    LexesTo features keyword.spelling.toList (.keyword keyword) chars := by
  apply lexesTo_keywordOf apart single allowed
  obtain ⟨first, rest, isWord, _, wordStart, inside⟩ := Keyword.spelling_isWord single
  apply afterIsNot?_eq_none _ apart
  · cases keyword with
    | is => contradiction
    | isNot => contradiction
    | _ => decide
  · rw [isWord]
    exact List.forall_mem_cons.mpr ⟨isWordChar_of_isWordStart wordStart, inside⟩

/-- After `is` and a space, the words `is not` go on with the word `not`. -/
theorem startsNot_of_afterIsNot? {later : List Char}
    (found : afterIsNot? (Keyword.is.spelling.toList ++ ' ' :: chars) = some later) :
    chars = Keyword.not.spelling.toList ++ later ∧ StartsApart later := by
  obtain ⟨isText, apart⟩ := afterIsNot?_eq_some_iff.mp found
  refine ⟨?_, apart⟩
  simpa [Keyword.spelling] using isText

theorem lexesTo_not (apart : StartsApart chars) :
    LexesTo features Keyword.not.spelling.toList (.keyword .not) chars :=
  lexesTo_keyword apart (by decide) (by decide) rfl

/-- The keyword `is` stands before a space and a text that does not start with
the keyword `not`. -/
theorem lexesTo_is (reads : Reads features chars kinds)
    (notNot : kinds.head? ≠ some (.keyword .not)) :
    LexesTo features Keyword.is.spelling.toList (.keyword .is) (' ' :: chars) := by
  apply lexesTo_keywordOf (show StartsApart (' ' :: chars) by rfl) (by decide) rfl
  cases found : afterIsNot? (Keyword.is.spelling.toList ++ ' ' :: chars) with
  | none => rfl
  | some later =>
      -- The text would start with the word `not`, and so its tokens with the keyword.
      obtain ⟨rfl, apart⟩ := startsNot_of_afterIsNot? found
      exact absurd ((lexesTo_not apart).head? reads) notNot

theorem lexesTo_isNot (apart : StartsApart chars) :
    LexesTo features Keyword.isNot.spelling.toList (.keyword .isNot) chars := by
  have found : afterIsNot? ('i' :: ("s not".toList ++ chars)) = some chars :=
    afterIsNot?_eq_some_iff.mpr ⟨rfl, apart⟩
  have lexes : LexesTo features ('i' :: "s not".toList) (.keyword .isNot) chars := by
    apply lexesTo_of_readLexeme (by decide +kernel) (by simp)
    · intro position
      simp only [readLexeme, found]
    · intro position
      simp only [readLexeme, found]
  exact lexes

/-! ## Literals and symbols -/

theorem afterIsNot?_cons_eq_none {first : Char} (notLetter : first ≠ 'i') (rest : List Char) :
    afterIsNot? (first :: rest) = none := by
  cases found : afterIsNot? (first :: rest) with
  | none => rfl
  | some later =>
      have start := congrArg List.head? (eq_append_of_afterIsNot? found)
      exact absurd (Option.some.inj start) notLetter

/-- A digit starts a literal and goes on with a word. -/
theorem digit_class {char : Char} (digit : char.isDigit = true) :
    (char ≠ '\n' ∧ char ≠ '#' ∧ isBlank char = false) ∧ char ≠ 'i' ∧
      isWordStart char = false ∧ isWordChar char = true := by
  have classes : ∀ code < 58, 48 ≤ code →
      (Char.ofNat code ≠ '\n' ∧ Char.ofNat code ≠ '#' ∧ isBlank (Char.ofNat code) = false) ∧
        Char.ofNat code ≠ 'i' ∧ isWordStart (Char.ofNat code) = false ∧
        isWordChar (Char.ofNat code) = true := by
    decide +kernel
  have bounds : 48 ≤ char.toNat ∧ char.toNat < 58 := by
    simp only [Char.isDigit, Bool.and_eq_true, decide_eq_true_eq, UInt32.le_iff_toNat_le] at digit
    exact ⟨digit.1, Nat.lt_succ_of_le digit.2⟩
  rw [← Char.ofNat_toNat char]
  exact classes char.toNat bounds.2 bounds.1

/-- A run of digits that is not too large is read as its decimal value. -/
theorem lexesTo_digits {digits : List Char} (nonempty : digits ≠ [])
    (inside : ∀ char ∈ digits, char.isDigit = true) (ends : chars.head?.any Char.isDigit = false)
    (small : Nat.ofDigitChars 10 digits 0 < literalBound) :
    LexesTo features digits (.integer (Int64.ofNat (Nat.ofDigitChars 10 digits 0))) chars := by
  obtain ⟨taken, left⟩ := takeWhile_dropWhile_append inside ends
  obtain ⟨first, rest, rfl⟩ := List.exists_cons_of_ne_nil nonempty
  rw [List.cons_append] at taken left
  have digit := inside first List.mem_cons_self
  obtain ⟨starts, notLetter, notWord, _⟩ := digit_class digit
  have notIsNot := afterIsNot?_cons_eq_none notLetter (rest ++ chars)
  apply lexesTo_of_readLexeme starts (by simp)
  · intro position
    simp only [readLexeme, notIsNot, notWord, digit, ↓reduceIte, readInteger, taken, small,
      Bool.false_eq_true]
  · intro position
    simp only [readLexeme, notIsNot, notWord, digit, ↓reduceIte, readInteger, left,
      Bool.false_eq_true]

theorem lexesTo_integer {value : Int64} (apart : StartsApart chars)
    (readable : (TokenKind.integer value).Readable features) :
    LexesTo features value.toInt.repr.toList (.integer value) chars := by
  obtain ⟨number, small, rfl⟩ := readable
  have isNumber : (Int64.ofNat number).toInt.repr = number.repr := by
    rw [Int64.toInt_ofNat_of_lt small]
    rfl
  have ends : chars.head?.any Char.isDigit = false := by
    cases chars with
    | nil => rfl
    | cons char rest =>
        rw [List.head?_cons, Option.any_some, Bool.eq_false_iff]
        intro digit
        have word := (digit_class digit).2.2.2
        simp [StartsApart, word] at apart
  have digits : ∀ char ∈ Nat.toDigits 10 number, char.isDigit = true :=
    fun char member => Nat.isDigit_of_mem_toDigits (by decide) (by decide) member
  have value := Nat.ofDigitChars_ten_toDigits (n := number)
  rw [← value] at small
  have lexes : LexesTo features (Nat.toDigits 10 number) _ chars :=
    lexesTo_digits Nat.toDigits_ne_nil digits ends small
  rw [value] at lexes
  rw [isNumber, Nat.toList_repr]
  exact lexes

theorem Symbol.front?_spelling {sign : Symbol}
    (single : sign = .less ∨ sign = .greater → chars.head? ≠ some '=') :
    Symbol.front? (sign.spelling.toList ++ chars) = some sign := by
  cases sign with
  | less =>
      cases chars with
      | nil => rfl
      | cons char rest =>
          have notEqual : char ≠ '=' := by simpa using single
          simp [spelling, front?, notEqual]
  | greater =>
      cases chars with
      | nil => rfl
      | cons char rest =>
          have notEqual : char ≠ '=' := by simpa using single
          simp [spelling, front?, notEqual]
  | _ => rfl

/-- Every symbol starts with a character that starts no other lexeme. -/
theorem Symbol.spelling_class (sign : Symbol) :
    ∃ first rest, sign.spelling.toList = first :: rest ∧
      (first ≠ '\n' ∧ first ≠ '#' ∧ isBlank first = false) ∧ first ≠ 'i' ∧
      isWordStart first = false ∧ first.isDigit = false := by
  cases sign <;>
    exact ⟨_, _, rfl, by decide +kernel, by decide, by decide +kernel, by decide⟩

theorem lexesTo_symbol {sign : Symbol} (allowed : sign.gate.all features.has = true)
    (single : sign = .less ∨ sign = .greater → chars.head? ≠ some '=') :
    LexesTo features sign.spelling.toList (.symbol sign) chars := by
  have front := Symbol.front?_spelling single
  have length : sign.spelling.length = sign.spelling.toList.length :=
    String.length_toList.symm
  obtain ⟨first, rest, isCons, starts, notLetter, notWord, notDigit⟩ :=
    Symbol.spelling_class sign
  rw [isCons] at front length ⊢
  rw [List.cons_append] at front
  have found : Symbol.read? features (first :: (rest ++ chars)) = some sign := by
    simp [Symbol.read?, front, allowed]
  have notIsNot := afterIsNot?_cons_eq_none notLetter (rest ++ chars)
  apply lexesTo_of_readLexeme starts (by simp)
  · intro position
    simp only [readLexeme, notIsNot, notWord, notDigit, ↓reduceIte, readSymbol, found,
      Bool.false_eq_true]
  · intro position
    simp only [readLexeme, notIsNot, notWord, notDigit, ↓reduceIte, readSymbol, found, length,
      Bool.false_eq_true]
    exact List.drop_left

end Scriptlet
