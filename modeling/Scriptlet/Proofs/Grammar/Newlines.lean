import Scriptlet.Proofs.Grammar.Program

/-!
Contract: token sequences with line feeds left out.

Owns:
- the sequences that are left when any number of line feeds is removed from one;
- what is left of the parts of a sequence;
- that expressions and parameter lists hold no line feeds, so all of them is left.
-/

namespace Scriptlet

/-- Whether the second sequence is the first one with any number of line feeds
removed. -/
inductive DropsNewlines : List TokenKind → List TokenKind → Prop where
  | nil : DropsNewlines [] []
  | keep (kind : TokenKind) {tokens fewer : List TokenKind}
      (rest : DropsNewlines tokens fewer) : DropsNewlines (kind :: tokens) (kind :: fewer)
  | drop {tokens fewer : List TokenKind} (rest : DropsNewlines tokens fewer) :
      DropsNewlines (.newline :: tokens) fewer

namespace DropsNewlines

variable {tokens fewer : List TokenKind}

theorem refl (tokens : List TokenKind) : DropsNewlines tokens tokens := by
  induction tokens with
  | nil => exact .nil
  | cons kind _ inductionHypothesis => exact .keep kind inductionHypothesis

theorem eq_nil (drops : DropsNewlines [] fewer) : fewer = [] := by
  cases drops
  rfl

/-- A token that is no line feed is left. -/
theorem of_cons {kind : TokenKind} (drops : DropsNewlines (kind :: tokens) fewer)
    (other : kind ≠ .newline) : ∃ rest, fewer = kind :: rest ∧ DropsNewlines tokens rest := by
  cases drops with
  | keep _ rest => exact ⟨_, rfl, rest⟩
  | drop => exact absurd rfl other

theorem append {other fewerOther : List TokenKind} (drops : DropsNewlines tokens fewer)
    (more : DropsNewlines other fewerOther) :
    DropsNewlines (tokens ++ other) (fewer ++ fewerOther) := by
  induction drops with
  | nil => exact more
  | keep kind _ inductionHypothesis => exact .keep kind inductionHypothesis
  | drop _ inductionHypothesis => exact .drop inductionHypothesis

theorem of_append {first second : List TokenKind} (drops : DropsNewlines (first ++ second) fewer) :
    ∃ before after, fewer = before ++ after ∧ DropsNewlines first before ∧
      DropsNewlines second after := by
  induction first generalizing fewer with
  | nil => exact ⟨[], fewer, rfl, .nil, drops⟩
  | cons kind first inductionHypothesis =>
      rw [List.cons_append] at drops
      cases drops with
      | keep _ rest =>
          obtain ⟨before, after, rfl, isFirst, isSecond⟩ := inductionHypothesis rest
          exact ⟨kind :: before, after, rfl, .keep kind isFirst, isSecond⟩
      | drop rest =>
          obtain ⟨before, after, rfl, isFirst, isSecond⟩ := inductionHypothesis rest
          exact ⟨before, after, rfl, .drop isFirst, isSecond⟩

/-- A sequence without line feeds is left as it is. -/
theorem eq_of_not_mem (drops : DropsNewlines tokens fewer)
    (none : TokenKind.newline ∉ tokens) : fewer = tokens := by
  induction drops with
  | nil => rfl
  | keep kind _ inductionHypothesis =>
      rw [inductionHypothesis fun member => none (List.mem_cons_of_mem _ member)]
  | drop => exact absurd List.mem_cons_self none

theorem optionalNewline (drops : DropsNewlines tokens fewer)
    (optional : OptionalNewline tokens) : OptionalNewline fewer := by
  rcases optional with rfl | rfl
  · exact .inl drops.eq_nil
  · cases drops with
    | keep _ rest => exact .inr (by rw [rest.eq_nil])
    | drop rest => exact .inl rest.eq_nil

end DropsNewlines

variable {features : FeatureSet}

theorem BinaryOperator.token_ne_newline (operator : BinaryOperator) :
    operator.token ≠ .newline := by
  cases operator <;> decide

theorem UnaryOperator.token_ne_newline (operator : UnaryOperator) :
    operator.token ≠ .newline := by
  cases operator <;> decide

/-- No line feed stands in an expression. -/
theorem ExprForm.Derives.newline_not_mem {tokens : List TokenKind} {form : ExprForm}
    (derived : Derives features tokens form) : TokenKind.newline ∉ tokens := by
  induction derived with
  | ofOperand _ part | ofTighter _ _ part | ofPlace _ part | nonempty _ part | one _ part =>
      exact part
  | binary operator _ _ left right =>
      simp [left, right, operator.token_ne_newline.symm]
  | @sign _ _ operator _ _ part => simp [part, operator.token_ne_newline.symm]
  | negation _ part | parentheses _ part | array _ _ part | call _ _ _ part => simp [part]
  | integer | name | empty => simp
  | index _ _ _ base offset => simp [base, offset]
  | more _ _ first rest => simp [first, rest]

theorem newline_not_mem_nameTokens (names : List String) :
    TokenKind.newline ∉ nameTokens names := by
  induction names with
  | nil => exact List.not_mem_nil
  | cons first rest inductionHypothesis =>
      cases rest with
      | nil => simp [nameTokens]
      | cons second rest =>
          have isTokens : nameTokens (first :: second :: rest) =
              .identifier first :: .symbol .comma :: nameTokens (second :: rest) := rfl
          simp [isTokens, inductionHypothesis]

end Scriptlet
