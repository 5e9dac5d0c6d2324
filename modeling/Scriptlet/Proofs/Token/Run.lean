import Scriptlet.Token.Scan

/-!
Contract: what the tokens of a source text are.

Owns:
- the end of input stands at the end of a run without failure, and nowhere else;
- a whole text is cut into the tokens of a run, or fails as the run does;
- the token kinds that a text can hold under a feature set, and that a run holds
  no others.
-/

namespace Scriptlet

open Text

/-- Outcomes of scanning and parsing can be compared. -/
instance decidableEqOutcome {failure result : Type} [DecidableEq failure] [DecidableEq result] :
    DecidableEq (Except failure result)
  | .ok left, .ok right => decidable_of_iff (left = right) (by rw [Except.ok.injEq])
  | .error left, .error right => decidable_of_iff (left = right) (by rw [Except.error.injEq])
  | .ok _, .error _ => isFalse nofun
  | .error _, .ok _ => isFalse nofun

namespace TokenRun

/-- The kinds of the tokens of a run. -/
def kinds (run : TokenRun) : List TokenKind :=
  run.tokens.map Token.kind

@[simp] theorem kinds_cons (token : Token) (run : TokenRun) :
    (run.cons token).kinds = token.kind :: run.kinds := rfl

end TokenRun

/-! ## The end of input -/

/-- The kinds of a run, with the end of input last if nothing failed. -/
theorem scanAll_kinds_shape (features : FeatureSet) (cursor : Cursor) :
    ∃ kinds, TokenKind.endOfInput ∉ kinds ∧
      ((scanAll features cursor).failure = none ∧
          (scanAll features cursor).kinds = kinds ++ [.endOfInput] ∨
        (scanAll features cursor).failure ≠ none ∧
          (scanAll features cursor).kinds = kinds) := by
  fun_induction scanAll features cursor with
  | case1 cursor failure next scanned =>
      exact ⟨[], List.not_mem_nil, .inr ⟨nofun, rfl⟩⟩
  | case2 cursor token next scanned atEnd =>
      refine ⟨[], List.not_mem_nil, .inl ⟨rfl, ?_⟩⟩
      simp [TokenRun.kinds, atEnd]
  | case3 cursor token next scanned notEnd inductionHypothesis =>
      obtain ⟨kinds, noEnd, shape⟩ := inductionHypothesis
      have stillNoEnd : TokenKind.endOfInput ∉ token.kind :: kinds := by
        intro member
        rcases List.mem_cons.mp member with isEnd | member
        · exact notEnd isEnd.symm
        · exact noEnd member
      refine ⟨token.kind :: kinds, stillNoEnd, ?_⟩
      rcases shape with ⟨finished, isAll⟩ | ⟨failed, isAll⟩
      · exact .inl ⟨finished, by rw [TokenRun.kinds_cons, isAll, List.cons_append]⟩
      · exact .inr ⟨failed, by rw [TokenRun.kinds_cons, isAll]⟩

/-- The end of input in a run is its last token, and the run did not fail. -/
theorem eq_append_endOfInput {features : FeatureSet} {cursor : Cursor}
    {before after : List TokenKind}
    (kinds : (scanAll features cursor).kinds = before ++ .endOfInput :: after) :
    after = [] ∧ (scanAll features cursor).failure = none := by
  obtain ⟨others, noEnd, ⟨finished, isAll⟩ | ⟨_, isAll⟩⟩ := scanAll_kinds_shape features cursor
  · refine ⟨?_, finished⟩
    rw [isAll] at kinds
    cases after with
    | nil => rfl
    | cons next after =>
        -- All but the last token of the run are among the others.
        have member : TokenKind.endOfInput ∈ others := by
          have prefixes := congrArg List.dropLast kinds
          rw [List.dropLast_concat] at prefixes
          rw [prefixes, List.dropLast_append_of_ne_nil (by simp),
            List.dropLast_cons_of_ne_nil (by simp)]
          simp
        exact absurd member noEnd
  · rw [isAll] at kinds
    exact absurd (by simp [kinds]) noEnd

/-! ## Whole texts -/

section

variable {features : FeatureSet} {source : String}

theorem tokenize_eq_ok_iff {tokens : List Token} :
    tokenize features source = .ok tokens ↔
      (scanAll features (Cursor.start source)).failure = none ∧
        (scanAll features (Cursor.start source)).tokens = tokens := by
  cases stopped : (scanAll features (Cursor.start source)).failure with
  | none => simp [tokenize, stopped]
  | some failure => simp [tokenize, stopped]

theorem tokenize_eq_error_iff {error : LexError} :
    tokenize features source = .error error ↔
      (scanAll features (Cursor.start source)).failure = some error := by
  cases stopped : (scanAll features (Cursor.start source)).failure with
  | none => simp [tokenize, stopped]
  | some failure => simp [tokenize, stopped]

end

/-! ## Readable kinds -/

/-- Whether a text can hold a token of a kind under a feature set.  A name is a
word that is no keyword there and starts with a character that is not passed
over. -/
def TokenKind.Readable (features : FeatureSet) : TokenKind → Prop
  | .identifier name =>
      ∃ first rest, name = String.ofList (first :: rest) ∧
        (first ≠ '\n' ∧ first ≠ '#' ∧ isBlank first = false) ∧
        isWordStart first = true ∧ (∀ char ∈ rest, isWordChar char = true) ∧
        Keyword.ofWord? features name = none
  | .integer value => ∃ number < literalBound, value = Int64.ofNat number
  | .keyword word => word.gate.all features.has = true
  | .symbol sign => sign.gate.all features.has = true
  | .newline | .endOfInput => True

/-- Layout stops at a line feed or at a character that starts a lexeme. -/
theorem starts_of_skipLayout {afterNewline inComment : Bool} {chars rest : List Char}
    {position stop : Nat} {first : Char}
    (skipped : skipLayout afterNewline inComment chars position = (first :: rest, stop))
    (notNewline : first ≠ '\n') : first ≠ '#' ∧ isBlank first = false := by
  fun_induction skipLayout afterNewline inComment chars position with
  | case1 => cases skipped
  | case2 _ _ _ _ inductionHypothesis => exact inductionHypothesis skipped
  | case3 =>
      simp only [Prod.mk.injEq, List.cons.injEq] at skipped
      exact absurd skipped.1.1.symm notNewline
  | case4 _ _ _ _ _ _ inductionHypothesis => exact inductionHypothesis skipped
  | case5 _ _ _ _ _ _ _ inductionHypothesis => exact inductionHypothesis skipped
  | case6 inComment char _ _ _ notComment notBlank =>
      simp only [Prod.mk.injEq, List.cons.injEq] at skipped
      obtain ⟨⟨rfl, _⟩, _⟩ := skipped
      simp only [Bool.or_eq_true, beq_iff_eq, not_or] at notComment
      exact ⟨notComment.2, Bool.eq_false_iff.mpr notBlank⟩

/-- Layout ends at a character that starts a lexeme. -/
theorem skipLayout_of_starts {afterNewline : Bool} {first : Char} {rest : List Char}
    {position : Nat} (notNewline : first ≠ '\n')
    (starts : first ≠ '#' ∧ isBlank first = false) :
    skipLayout afterNewline false (first :: rest) position = (first :: rest, position) := by
  simp [skipLayout, notNewline, starts.1, starts.2]

theorem readable_of_readWord {features : FeatureSet} {first : Char} {rest : List Char}
    {kind : TokenKind} (starts : first ≠ '\n' ∧ first ≠ '#' ∧ isBlank first = false)
    (wordStart : isWordStart first = true)
    (read : (readWord features (first :: rest)).outcome = .ok kind) :
    kind.Readable features := by
  simp only [readWord, Except.ok.injEq] at read
  split at read
  · next keyword isKeyword =>
      subst read
      have found := List.find?_some isKeyword
      rw [Bool.and_eq_true] at found
      exact found.2
  · next notKeyword =>
      subst read
      have word := isWordChar_of_isWordStart wordStart
      rw [List.takeWhile_cons_of_pos word] at notKeyword ⊢
      refine ⟨first, rest.takeWhile isWordChar, rfl, starts, wordStart, ?_, notKeyword⟩
      intro char member
      exact List.all_eq_true.mp List.all_takeWhile char member

theorem readable_of_readLexeme {features : FeatureSet} {position : Nat} {first : Char}
    {rest : List Char} {kind : TokenKind}
    (starts : first ≠ '\n' ∧ first ≠ '#' ∧ isBlank first = false)
    (read : (readLexeme features position first rest).outcome = .ok kind) :
    kind.Readable features := by
  unfold readLexeme at read
  split at read
  · cases read
    rfl
  · split at read
    · next wordStart => exact readable_of_readWord starts wordStart read
    · split at read
      · simp only [readInteger] at read
        split at read
        · next small =>
            cases read
            exact ⟨_, small, rfl⟩
        · cases read
      · unfold readSymbol at read
        split at read
        · next symbol found =>
            cases read
            exact (Option.filter_eq_some_iff.mp found).2
        · cases read

theorem readable_of_scan {features : FeatureSet} {cursor next : Cursor} {token : Token}
    (scanned : scan features cursor = (.ok token, next)) : token.kind.Readable features := by
  unfold scan at scanned
  split at scanned
  · cases scanned
    trivial
  · next first rest position skipped =>
      split at scanned
      · cases scanned
        trivial
      · next notNewline =>
          have starts := starts_of_skipLayout skipped notNewline
          simp only [Prod.mk.injEq] at scanned
          cases outcome : (readLexeme features position first rest).outcome with
          | error failure => simp [outcome, Except.map] at scanned
          | ok kind =>
              rw [outcome] at scanned
              cases scanned.1
              exact readable_of_readLexeme ⟨notNewline, starts⟩ outcome

/-- A run holds readable tokens only. -/
theorem readable_of_mem_scanAll {features : FeatureSet} {cursor : Cursor} {kind : TokenKind}
    (member : kind ∈ (scanAll features cursor).kinds) : kind.Readable features := by
  fun_induction scanAll features cursor with
  | case1 => cases member
  | case2 cursor token next scanned atEnd =>
      rw [TokenRun.kinds, List.map_singleton, List.mem_singleton] at member
      rw [member]
      exact readable_of_scan scanned
  | case3 cursor token next scanned notEnd inductionHypothesis =>
      rw [TokenRun.kinds_cons] at member
      rcases List.mem_cons.mp member with isFirst | member
      · rw [isFirst]
        exact readable_of_scan scanned
      · exact inductionHypothesis member

end Scriptlet
