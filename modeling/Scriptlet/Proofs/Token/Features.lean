import Scriptlet.Proofs.Token.Reads

/-!
Contract: more features leave the tokens of a text as they are, unless a name of
it becomes a keyword.

Owns:
- the keywords that some features gate;
- words, symbols and whole texts that are read under a feature set, read under a
  larger one.

Symbols only come into being with features, so a text that was cut without
failure has the same symbols under more of them.
-/

namespace Scriptlet

open Text

variable {features more : FeatureSet}

/-- A gate that is open under a feature set is open under a larger one. -/
theorem FeatureSet.gate_of_subset {gate : Option Feature} (included : features ⊆ more)
    (allowed : gate.all features.has = true) : gate.all more.has = true := by
  cases gate with
  | none => rfl
  | some feature => exact included feature allowed

/-! ## Words -/

namespace Keyword

/-- The keywords that exist because of some features. -/
def gatedBy (features : FeatureSet) : List Keyword :=
  all.filter fun keyword => keyword.gate.any features.has

theorem eq_of_spelling_eq {left right : Keyword} (same : left.spelling = right.spelling) :
    left = right := by
  have apart : ∀ left ∈ all, ∀ right ∈ all, left.spelling = right.spelling → left = right := by
    decide
  exact apart left (mem_all left) right (mem_all right) same

theorem ofWord?_eq_some_iff {word : String} {keyword : Keyword} :
    ofWord? features word = some keyword ↔
      keyword.spelling = word ∧ keyword.gate.all features.has = true := by
  constructor
  · intro found
    have isKeyword := List.find?_some found
    rw [Bool.and_eq_true, beq_iff_eq] at isKeyword
    exact isKeyword
  · rintro ⟨rfl, allowed⟩
    unfold ofWord?
    cases found : all.find? fun other =>
        other.spelling == keyword.spelling && other.gate.all features.has with
    | none =>
        have absent := List.find?_eq_none.mp found keyword (mem_all keyword)
        simp [allowed] at absent
    | some other =>
        have isOther := List.find?_some found
        rw [Bool.and_eq_true, beq_iff_eq] at isOther
        rw [eq_of_spelling_eq isOther.1]

theorem ofWord?_of_subset {word : String} {keyword : Keyword} (included : features ⊆ more)
    (found : ofWord? features word = some keyword) : ofWord? more word = some keyword := by
  obtain ⟨spelled, allowed⟩ := ofWord?_eq_some_iff.mp found
  exact ofWord?_eq_some_iff.mpr ⟨spelled, FeatureSet.gate_of_subset included allowed⟩

/-- A word that is no keyword becomes one only through a feature that was added. -/
theorem ofWord?_eq_none_of_subset {word : String} (notFound : ofWord? features word = none)
    (apart : ∀ keyword ∈ gatedBy (more \ features), keyword.spelling ≠ word) :
    ofWord? more word = none := by
  cases found : ofWord? more word with
  | none => rfl
  | some keyword =>
      obtain ⟨spelled, allowed⟩ := ofWord?_eq_some_iff.mp found
      have notAllowed : keyword.gate.all features.has ≠ true := by
        intro allowed
        rw [ofWord?_eq_some_iff.mpr ⟨spelled, allowed⟩] at notFound
        cases notFound
      have added : keyword ∈ gatedBy (more \ features) := by
        refine List.mem_filter.mpr ⟨mem_all keyword, ?_⟩
        cases gate : keyword.gate with
        | none =>
            rw [gate] at notAllowed
            exact absurd rfl notAllowed
        | some feature =>
            rw [gate] at allowed notAllowed
            exact FeatureSet.mem_sdiff.mpr ⟨allowed, notAllowed⟩
      exact absurd spelled (apart keyword added)

end Keyword

/-! ## Lexemes -/

section Lexemes

variable {first : Char} {rest : List Char} {kind : TokenKind}

theorem readWord_of_subset {chars : List Char} (included : features ⊆ more)
    (read : (readWord features chars).outcome = .ok kind)
    (apart : ∀ keyword ∈ Keyword.gatedBy (more \ features), kind ≠ .identifier keyword.spelling) :
    readWord more chars = readWord features chars := by
  unfold readWord at read ⊢
  cases found : Keyword.ofWord? features (String.ofList (chars.takeWhile isWordChar)) with
  | some keyword => simp only [found, Keyword.ofWord?_of_subset included found]
  | none =>
      simp only [found, Except.ok.injEq] at read
      have stillNone := Keyword.ofWord?_eq_none_of_subset found fun keyword added isWord =>
        apart keyword added (by rw [← read, isWord])
      simp only [found, stillNone]

theorem readSymbol_of_subset {position : Nat} {chars : List Char} (included : features ⊆ more)
    (read : (readSymbol features position first chars).outcome = .ok kind) :
    readSymbol more position first chars = readSymbol features position first chars := by
  unfold readSymbol at read ⊢
  cases found : Symbol.read? features chars with
  | none => simp [found] at read
  | some sign =>
      obtain ⟨isFront, allowed⟩ := Option.filter_eq_some_iff.mp found
      have foundMore : Symbol.read? more chars = some sign :=
        Option.filter_eq_some_iff.mpr ⟨isFront, FeatureSet.gate_of_subset included allowed⟩
      simp only [foundMore]

theorem readLexeme_of_subset {position : Nat} (included : features ⊆ more)
    (read : (readLexeme features position first rest).outcome = .ok kind)
    (apart : ∀ keyword ∈ Keyword.gatedBy (more \ features), kind ≠ .identifier keyword.spelling) :
    readLexeme more position first rest = readLexeme features position first rest := by
  unfold readLexeme at read ⊢
  split
  · rfl
  · next notIsNot =>
      simp only [notIsNot] at read
      split
      · next isWord =>
          rw [if_pos isWord] at read
          exact readWord_of_subset included read apart
      · next notWord =>
          rw [if_neg notWord] at read
          split
          · rfl
          · next notDigit =>
              rw [if_neg notDigit] at read
              exact readSymbol_of_subset included read

end Lexemes

/-! ## Texts -/

theorem scan_of_subset {cursor next : Cursor} {token : Token} (included : features ⊆ more)
    (scanned : scan features cursor = (.ok token, next))
    (apart : ∀ keyword ∈ Keyword.gatedBy (more \ features),
      token.kind ≠ .identifier keyword.spelling) :
    scan more cursor = (.ok token, next) := by
  unfold scan at scanned ⊢
  split
  · next position skipped => simpa [skipped] using scanned
  · next first rest position skipped =>
      simp only [skipped] at scanned
      split
      · next isNewline => simpa [isNewline] using scanned
      · next notNewline =>
          rw [if_neg notNewline] at scanned
          cases outcome : (readLexeme features position first rest).outcome with
          | error failure => simp [outcome, Except.map] at scanned
          | ok kind =>
              have isKind : kind = token.kind := by
                simp only [outcome, Except.map, Prod.mk.injEq, Except.ok.injEq] at scanned
                rw [← scanned.1]
              subst isKind
              rw [readLexeme_of_subset included outcome apart]
              exact scanned

/-- A text that is cut without failure is cut alike under more features, if none of
its names is spelled like a keyword of an added one. -/
theorem scanAll_of_subset {cursor : Cursor} (included : features ⊆ more)
    (finished : (scanAll features cursor).failure = none)
    (apart : ∀ keyword ∈ Keyword.gatedBy (more \ features),
      .identifier keyword.spelling ∉ (scanAll features cursor).kinds) :
    scanAll more cursor = scanAll features cursor := by
  fun_induction scanAll features cursor with
  | case1 cursor failure next scanned => cases finished
  | case2 cursor token next scanned atEnd =>
      have alike := scan_of_subset included scanned fun keyword _ isName => by
        rw [atEnd] at isName
        cases isName
      rw [scanAll_eq, alike]
      exact if_pos atEnd
  | case3 cursor token next scanned notEnd inductionHypothesis =>
      simp only [TokenRun.kinds_cons, List.mem_cons, not_or] at apart
      have alike := scan_of_subset included scanned fun keyword added isName =>
        (apart keyword added).1 isName.symm
      rw [scanAll_of_scan alike notEnd,
        inductionHypothesis finished fun keyword added => (apart keyword added).2]

end Scriptlet
