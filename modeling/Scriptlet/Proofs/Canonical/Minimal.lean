import Scriptlet.Proofs.Canonical.Nesting
import Scriptlet.Proofs.Canonical.Omission
import Scriptlet.Proofs.Canonical.Parentheses
import Scriptlet.Proofs.Parser.Legible
import Scriptlet.Proofs.Token.Joint

/-!
Contract: canonical text has no needless parentheses.

Owns:
- what a text reads as when `is` or a unary operator is put in front of it;
- texts that are cut into tokens which miss an expression, and that every context keeps
  them so;
- an expression of an accepted program is not read back from its canonical text without
  one of the pairs of parentheses around its operands.

A text is read from its end, since what stands behind an operator can change what the
operator is: `is` in front of a text that starts with `not` takes that word in.  All other
tokens stay as they are when a pair is left out, and only their grouping is in question.
-/

namespace Scriptlet

open Text

variable {features : FeatureSet} {chars : List Char} {kinds : List TokenKind}

/-! ## Levels of unary operators -/

theorem UnaryOperator.one_le_level (operator : UnaryOperator) : 1 ≤ operator.level := by
  cases operator <;> decide

theorem Expr.needsParensUnder_eq (operator : UnaryOperator) (operand : Expr) :
    operand.needsParensUnder operator = decide (operand.level < operator.level) := by
  cases operator with
  | not => exact operand.needsParensUnderNot_eq
  | negate | plus => exact operand.needsParensUnderSign_eq

/-! ## Lexemes in front of a text -/

/-- A text whose first lexeme is known goes on with the tokens after it. -/
theorem LexesTo.reads_rest {lexeme : List Char} {kind : TokenKind}
    (lexes : LexesTo features lexeme kind chars)
    (reads : Reads features (lexeme ++ chars) kinds) :
    ∃ later, kinds = kind :: later ∧ Reads features chars later := by
  obtain ⟨stop, scanned⟩ := lexes.2 0
  obtain ⟨finished, isAll⟩ := reads 0
  rw [scanAll_of_scan scanned lexes.1] at finished isAll
  rw [TokenRun.kinds_cons] at isAll
  obtain ⟨front, _, ⟨_, isFront⟩ | ⟨failed, _⟩⟩ :=
    scanAll_kinds_shape features ⟨chars, stop, false⟩
  · refine ⟨front ++ [.endOfInput], ?_, reads_of_scanAll isFront⟩
    rw [← isAll, isFront]
  · exact absurd finished failed

/-- The word `is` in front of a text is an operator of its own, or one with the `not` that
the text starts with. -/
theorem Reads.is_cases (reads : Reads features chars kinds) :
    Reads features (BinaryOperator.is.symbol.toList ++ ' ' :: chars)
        (BinaryOperator.is.token :: kinds) ∨
      ∃ later, kinds = .keyword .not :: later ∧
        Reads features (BinaryOperator.is.symbol.toList ++ ' ' :: chars)
          (BinaryOperator.isNot.token :: later) := by
  have apart : StartsApart (' ' :: chars) := rfl
  cases found : afterIsNot? (Keyword.is.spelling.toList ++ ' ' :: chars) with
  | none =>
      have lexes : LexesTo features Keyword.is.spelling.toList (.keyword .is) (' ' :: chars) :=
        lexesTo_keywordOf apart (by decide) rfl found
      exact .inl (lexes.reads reads.space)
  | some rest =>
      obtain ⟨rfl, restApart⟩ := startsNot_of_afterIsNot? found
      obtain ⟨later, rfl, restReads⟩ := (lexesTo_not restApart).reads_rest reads
      exact .inr ⟨later, rfl, (lexesTo_isNot restApart).reads restReads⟩

/-- A unary operator in front of its operand. -/
theorem Reads.unary (reads : Reads features chars kinds) (operator : UnaryOperator) :
    Reads features (operator.lead.toList ++ chars) (operator.token :: kinds) := by
  cases operator with
  | not => exact reads.keyword .not (by decide) rfl
  | negate => exact reads.delimiter rfl rfl (by decide)
  | plus => exact reads.delimiter rfl rfl (by decide)

/-! ## Texts that miss an expression -/

namespace ExprForm

/-- Whether a text in front of another one is cut into tokens that miss a form. -/
structure Misreads (features : FeatureSet) (form : ExprForm) (text : String) : Prop where
  before : ∀ {chars : List Char} {kinds : List TokenKind}, StartsApart chars →
    Reads features chars kinds →
    ∃ tokens, tokens ≠ [] ∧ Misses features form tokens ∧
      Reads features (text.toList ++ chars) (tokens ++ kinds)

theorem Legible.readsCanonically {form : ExprForm} (legible : form.Legible features) :
    form.ReadsCanonically features := by
  obtain ⟨_, derived, readable⟩ := legible
  exact derived.readsCanonically readable

theorem Legible.canonical {form : ExprForm} (legible : form.Legible features) :
    form.Canonical features := by
  obtain ⟨_, derived, _⟩ := legible
  exact derived.canonical

/-- What stands in brackets of some kind. -/
theorem Misreads.enclosed {form : ExprForm} {text : String} {left right : Symbol} {opening closing : Char}
    (misreads : Misreads features form text) (reads : Reads features chars kinds)
    (opens : left.spelling.toList = [opening]) (closes : right.spelling.toList = [closing])
    (leftAllowed : left.gate.all features.has = true)
    (rightAllowed : right.gate.all features.has = true)
    (single : (left ≠ .less ∧ left ≠ .greater) ∧ right ≠ .less ∧ right ≠ .greater)
    (apart : isWordChar closing = false) :
    ∃ tokens, Misses features form tokens ∧
      Reads features (opening :: (text.toList ++ closing :: chars))
        (.symbol left :: (tokens ++ .symbol right :: kinds)) := by
  have closed := reads.delimiter closes rightAllowed single.2
  obtain ⟨tokens, _, misses, inner⟩ :=
    misreads.before (show StartsApart (closing :: chars) by simpa [StartsApart]) closed
  exact ⟨tokens, misses, inner.delimiter opens leftAllowed single.1⟩

theorem Misreads.inParentheses {form : ExprForm} {text : String}
    (misreads : Misreads features form text) (reads : Reads features chars kinds) :
    ∃ tokens, Misses features form tokens ∧
      Reads features ('(' :: (text.toList ++ ')' :: chars))
        (.symbol .leftParen :: (tokens ++ .symbol .rightParen :: kinds)) :=
  misreads.enclosed reads rfl rfl rfl rfl (by decide) (by decide +kernel)

theorem Misreads.inBrackets {form : ExprForm} {text : String} (allowed : Feature.array ∈ features)
    (misreads : Misreads features form text) (reads : Reads features chars kinds) :
    ∃ tokens, Misses features form tokens ∧
      Reads features ('[' :: (text.toList ++ ']' :: chars))
        (.symbol .leftBracket :: (tokens ++ .symbol .rightBracket :: kinds)) :=
  misreads.enclosed reads rfl rfl allowed allowed (by decide) (by decide +kernel)

theorem Misreads.parenthesized {expr : Expr} {text : String} {level : Nat}
    (misreads : Misreads features (.expression 1 expr) text) (positive : 1 ≤ level)
    (needed : Bool) :
    Misreads features (.expression level expr) (Expr.parenthesize needed text) := by
  refine ⟨fun {chars kinds} apart reads => ?_⟩
  cases needed with
  | false =>
      obtain ⟨tokens, nonempty, misses, text⟩ := misreads.before apart reads
      exact ⟨tokens, nonempty, misses.parenthesized positive false, text⟩
  | true =>
      obtain ⟨tokens, misses, enclosed⟩ := misreads.inParentheses reads
      refine ⟨_, List.cons_ne_nil _ _, misses.parenthesized positive true, ?_⟩
      simpa [Expr.parenthesize] using enclosed

/-- The canonical text of an operand that needs parentheses. -/
theorem misreads_render {expr : Expr} {level : Nat}
    (legible : (operand expr).Legible features) (looser : expr.level < level) :
    Misreads features (.expression level expr) expr.render := by
  refine ⟨fun apart reads => ⟨expr.tokens, ?_, misses_tokens looser, ?_⟩⟩
  · obtain ⟨front, kind, back, isTokens, _⟩ := expr.exposed_tokens
    rw [isTokens]
    simp
  · exact legible.readsCanonically.before apart reads

section Contexts

variable {level : Nat} {text : String}

theorem Misreads.operand {operator : UnaryOperator} {operand : Expr}
    (misreads : Misreads features (.expression operator.level operand) text) :
    Misreads features (.expression level (.unary operator operand))
      (operator.lead ++ text) := by
  refine ⟨fun apart reads => ?_⟩
  obtain ⟨tokens, _, misses, operandReads⟩ := misreads.before apart reads
  refine ⟨_, by simp, misses.operand, ?_⟩
  rw [String.toList_append, List.append_assoc]
  exact operandReads.unary operator

theorem Misreads.left {operator : BinaryOperator} {left right : Expr}
    (legible : (ExprForm.operand right).Legible features)
    (misreads : Misreads features (.expression operator.level left) text) :
    Misreads features (.expression level (.binary operator left right))
      (operator.between text
        (Expr.parenthesize (right.needsParensRight operator) right.render)) := by
  refine ⟨fun {chars kinds} apart reads => ?_⟩
  have rightReads : ReadsBefore features right.render right.tokens := legible.readsCanonically
  have rightText := (rightReads.parenthesized (right.needsParensRight operator)).before apart reads
  have operatorText := rightText.operator operator fun isIs => by
    rw [isIs]
    exact head?_rightTokens_ne_not legible.canonical kinds
  obtain ⟨tokens, _, misses, leftText⟩ :=
    misreads.before (show StartsApart (' ' :: _) by rfl) operatorText.space
  refine ⟨_, by simp, misses.left, ?_⟩
  simpa [BinaryOperator.between] using leftText

/-- Right after an operator the text of the right operand may lose its first token to
it. -/
theorem Misreads.exists_right {operator : BinaryOperator} {left right : Expr}
    (misreads : Misreads features (.expression (operator.level + 1) right) text)
    (apart : StartsApart chars) (reads : Reads features chars kinds) :
    ∃ kind more,
      Misses features (.expression level (.binary operator left right))
        (Expr.parenthesizeTokens (left.needsParensLeft operator) left.tokens ++ kind :: more) ∧
      Reads features (operator.symbol.toList ++ ' ' :: (text.toList ++ chars))
        (kind :: (more ++ kinds)) := by
  obtain ⟨tokens, nonempty, misses, rightText⟩ := misreads.before apart reads
  by_cases isIs : operator = .is
  · subst isIs
    obtain separate | ⟨later, isLater, merged⟩ := rightText.is_cases
    · exact ⟨_, tokens, misses.right, separate⟩
    · obtain ⟨first, more, rfl⟩ := List.exists_cons_of_ne_nil nonempty
      obtain ⟨rfl, rfl⟩ := List.cons.inj isLater
      exact ⟨_, more, misses.merged, merged⟩
  · exact ⟨_, tokens, misses.right, rightText.operator operator fun same => absurd same isIs⟩

theorem Misreads.right {operator : BinaryOperator} {left right : Expr}
    (legible : (ExprForm.operand left).Legible features)
    (misreads : Misreads features (.expression (operator.level + 1) right) text) :
    Misreads features (.expression level (.binary operator left right))
      (operator.between
        (Expr.parenthesize (left.needsParensLeft operator) left.render) text) := by
  refine ⟨fun {chars kinds} apart reads => ?_⟩
  obtain ⟨kind, more, misses, rightText⟩ := misreads.exists_right apart reads
  have leftReads : ReadsBefore features left.render left.tokens := legible.readsCanonically
  have leftSlot := leftReads.parenthesized (left.needsParensLeft operator)
  have whole := leftSlot.before (show StartsApart (' ' :: _) by rfl) rightText.space
  refine ⟨_, by simp, misses, ?_⟩
  simpa [BinaryOperator.between] using whole

theorem Misreads.inBase {base offset : Expr} (allowed : Feature.array ∈ features)
    (legible : (ExprForm.operand offset).Legible features)
    (misreads : Misreads features (.expression 1 base) text) :
    Misreads features (.expression level (.index base offset))
      (text ++ "[" ++ offset.render ++ "]") := by
  refine ⟨fun {chars kinds} _ reads => ?_⟩
  have offsetReads : ReadsBefore features offset.render offset.tokens := legible.readsCanonically
  have offsetText : Reads features ('[' :: (_ ++ ']' :: chars))
      (.symbol .leftBracket :: (_ ++ .symbol .rightBracket :: kinds)) :=
    offsetReads.enclosed reads rfl rfl allowed allowed (by decide) (by decide +kernel)
  obtain ⟨tokens, _, misses, baseText⟩ :=
    misreads.before (show StartsApart ('[' :: _) by rfl) offsetText
  refine ⟨_, by simp, misses.base, ?_⟩
  simpa using baseText

theorem Misreads.inOffset {base offset : Expr} (allowed : Feature.array ∈ features)
    (legible : (ExprForm.operand base).Legible features)
    (misreads : Misreads features (.expression 1 offset) text) :
    Misreads features (.expression level (.index base offset))
      (base.render ++ "[" ++ text ++ "]") := by
  refine ⟨fun {chars kinds} _ reads => ?_⟩
  have baseReads : ReadsBefore features base.render base.tokens := legible.readsCanonically
  obtain ⟨tokens, misses, offsetText⟩ := misreads.inBrackets allowed reads
  have whole := baseReads.before (show StartsApart ('[' :: _) by rfl) offsetText
  refine ⟨_, by simp, misses.offset, ?_⟩
  simpa using whole

theorem Misreads.array {items : List Expr} (allowed : Feature.array ∈ features)
    (misreads : Misreads features (.items items) text) (nonempty : items ≠ []) :
    Misreads features (.expression level (.array items)) ("[" ++ text ++ "]") := by
  refine ⟨fun {chars kinds} _ reads => ?_⟩
  obtain ⟨tokens, misses, whole⟩ := misreads.inBrackets allowed reads
  refine ⟨_, by simp, misses.array nonempty, ?_⟩
  simpa using whole

theorem Misreads.call {function : String} {arguments : List Expr}
    (named : (TokenKind.identifier function).Readable features)
    (misreads : Misreads features (.items arguments) text) (nonempty : arguments ≠ []) :
    Misreads features (.expression level (.call function arguments))
      (function ++ "(" ++ text ++ ")") := by
  refine ⟨fun {chars kinds} _ reads => ?_⟩
  obtain ⟨tokens, misses, argumentText⟩ := misreads.inParentheses reads
  have whole := (lexesTo_identifier (show StartsApart ('(' :: _) by rfl) named).reads argumentText
  refine ⟨_, by simp, misses.call nonempty, ?_⟩
  simpa using whole

/-- A member of a list whose text misses it, among others in their canonical text. -/
theorem Misreads.items {before after : List Expr} {item : Expr}
    (legible : ∀ expr ∈ before ++ item :: after, (ExprForm.operand expr).Legible features)
    (misreads : Misreads features (.expression 1 item) text) :
    Misreads features (.items (before ++ item :: after))
      (", ".intercalate (before.map Expr.render ++ text :: after.map Expr.render)) := by
  induction before with
  | nil =>
      rw [List.nil_append, List.forall_mem_cons] at legible
      cases after with
      | nil =>
          refine ⟨fun apart reads => ?_⟩
          obtain ⟨tokens, nonempty, misses, whole⟩ := misreads.before apart reads
          exact ⟨tokens, nonempty, misses.one, by simpa using whole⟩
      | cons next after =>
          have nonempty := List.cons_ne_nil next after
          have laterReads := (Legible.items nonempty legible.2).readsCanonically
          refine ⟨fun {chars kinds} apart reads => ?_⟩
          have laterText := (laterReads.before apart reads).comma
          obtain ⟨tokens, _, misses, whole⟩ :=
            misreads.before (show StartsApart (',' :: _) by rfl) laterText
          refine ⟨_, by simp, misses.first nonempty, ?_⟩
          simpa using whole
  | cons first before inductionHypothesis =>
      have nonempty : before ++ item :: after ≠ [] := by simp
      rw [List.cons_append, List.forall_mem_cons] at legible
      have firstReads : ReadsBefore features first.render first.tokens :=
        legible.1.readsCanonically
      refine ⟨fun {chars kinds} apart reads => ?_⟩
      obtain ⟨tokens, _, misses, laterText⟩ :=
        (inductionHypothesis legible.2).before apart reads
      have whole := firstReads.before (show StartsApart (',' :: _) by rfl) laterText.comma
      refine ⟨_, by simp, misses.later nonempty, ?_⟩
      rw [List.map_cons, List.cons_append, String.intercalate_cons_of_ne_nil (by simp)]
      simpa using whole

end Contexts

end ExprForm

/-! ## Programs -/

/-- Without one of its pairs of parentheses the canonical text of a well-formed expression
misses it. -/
theorem Expr.LacksPair.misreads {expr : Expr} {text : String} (lacks : expr.LacksPair text)
    (everywhere : (Node.expr expr).Everywhere (Node.WellFormed features)) :
    ExprForm.Misreads features (.expression 1 expr) text := by
  induction lacks with
  | @operand operator operand needed =>
      have legible := operand.legible_of_wellFormed (everywhere.part (.operand _ _))
      rw [needsParensUnder_eq, decide_eq_true_iff] at needed
      exact (ExprForm.misreads_render legible.1 needed).operand
  | @left operator left right needed counts =>
      have legibleLeft := left.legible_of_wellFormed (everywhere.part (.left _ _ _))
      have legibleRight := right.legible_of_wellFormed (everywhere.part (.right _ _ _))
      rw [needsParensLeft_eq counts, decide_eq_true_iff] at needed
      exact (ExprForm.misreads_render legibleLeft.1 needed).left legibleRight.1
  | @right operator left right needed counts =>
      have legibleLeft := left.legible_of_wellFormed (everywhere.part (.left _ _ _))
      have legibleRight := right.legible_of_wellFormed (everywhere.part (.right _ _ _))
      rw [needsParensRight_eq counts, decide_eq_true_iff] at needed
      exact (ExprForm.misreads_render legibleRight.1 needed).right legibleLeft.1
  | inOperand operator _ inductionHypothesis =>
      have misreads := inductionHypothesis (everywhere.part (.operand _ _))
      exact (misreads.parenthesized operator.one_le_level _).operand
  | inLeft operator right _ inductionHypothesis =>
      have misreads := inductionHypothesis (everywhere.part (.left _ _ _))
      have legibleRight := right.legible_of_wellFormed (everywhere.part (.right _ _ _))
      exact (misreads.parenthesized operator.one_le_level _).left legibleRight.1
  | inRight operator left _ inductionHypothesis =>
      have misreads := inductionHypothesis (everywhere.part (.right _ _ _))
      have legibleLeft := left.legible_of_wellFormed (everywhere.part (.left _ _ _))
      exact (misreads.parenthesized (Nat.le_add_left 1 _) _).right legibleLeft.1
  | inItem before after _ inductionHypothesis =>
      have misreads := inductionHypothesis (everywhere.part (.item List.mem_append_cons_self))
      have legible := Expr.all_legible_of_wellFormed _ fun _ member =>
        everywhere.part (.item member)
      have allowed := (everywhere _ .refl).allowed .array List.mem_cons_self
      exact (misreads.items legible).array allowed (by simp)
  | inArgument function before after _ inductionHypothesis =>
      have misreads :=
        inductionHypothesis (everywhere.part (.argument function List.mem_append_cons_self))
      have legible := Expr.all_legible_of_wellFormed _ fun _ member =>
        everywhere.part (.argument function member)
      have named := (everywhere _ .refl).named function rfl
      exact (misreads.items legible).call named (by simp)
  | inBase offset _ inductionHypothesis =>
      have misreads := inductionHypothesis (everywhere.part (.base _ _))
      have legible := offset.legible_of_wellFormed (everywhere.part (.offset _ _))
      have allowed := (everywhere _ .refl).allowed .array List.mem_cons_self
      exact misreads.inBase allowed legible.1
  | inOffset base _ inductionHypothesis =>
      have misreads := inductionHypothesis (everywhere.part (.offset _ _))
      have legible := base.legible_of_wellFormed (everywhere.part (.base _ _))
      have allowed := (everywhere _ .refl).allowed .array List.mem_cons_self
      exact misreads.inOffset allowed legible.1

/-- The tokens of one assignment are a name, `=` and tokens of the value, and perhaps a
line feed. -/
theorem Block.DerivedFrom.value {tokens : List TokenKind} {name : String} {value : Expr}
    (derived : Block.DerivedFrom features
      (.identifier name :: .symbol .assign :: (tokens ++ [.endOfInput])) [.assign name value]) :
    ∃ valueTokens ending, tokens = valueTokens ++ ending ∧ OptionalNewline ending ∧
      ExprForm.Derives features valueTokens (.expression 1 value) := by
  obtain ⟨opening, statementTokens, rfl | rfl, statements, isAll⟩ := derived
  · cases statements with
    | nextStatement first rest =>
        cases rest
        cases first with
        | @ofBare _ ending _ bare ends =>
            cases bare with
            | ofAssignment assigned =>
                cases assigned with
                | @assign valueTokens _ _ second =>
                    have same : tokens ++ [.endOfInput] =
                        (valueTokens ++ ending) ++ [.endOfInput] := by
                      simpa using isAll
                    exact ⟨_, _, (List.append_inj' same rfl).1, ends, second⟩
  · cases isAll

/-- Tokens that miss a form do not derive it before a line feed either. -/
theorem ExprForm.Misses.not_derives_before {form : ExprForm} {tokens ending : List TokenKind}
    (misses : Misses features form (tokens ++ ending)) (ends : OptionalNewline ending) :
    ¬ Derives features tokens form := by
  obtain rfl | rfl := ends
  · rw [List.append_nil] at misses
    exact misses.not_derives
  · intro derived
    have atMost := misses.length_solid_le
    have longer : (solid (tokens ++ [.newline])).length = (solid form.tokens).length + 1 := by
      simp [derived.solid_eq, TokenKind.weight]
    omega

theorem Reads.assign {name : String} (reads : Reads features chars kinds)
    (named : (TokenKind.identifier name).Readable features) :
    Reads features (name.toList ++ ' ' :: '=' :: ' ' :: chars)
      (.identifier name :: .symbol .assign :: kinds) := by
  have assigned : Reads features ('=' :: ' ' :: chars) (.symbol .assign :: kinds) :=
    reads.space.delimiter rfl rfl (by decide)
  exact (lexesTo_identifier (show StartsApart (' ' :: _) by rfl) named).reads assigned.space

theorem readable_identifier_x : (TokenKind.identifier "x").Readable features :=
  ⟨'x', [], rfl, by decide +kernel, by decide +kernel, nofun, rfl⟩

/-- No pair of parentheses in canonical text is needless.  An expression of an accepted
program is not read back from its canonical text with one pair around an operand left
out, but for the pair around a negation right under `and` or `or`. -/
theorem parse_ne_of_lacksPair {source : String} {block : Block}
    (accepted : parse features source = .ok block) {expr : Expr}
    (within : (Node.expr expr).Within (.block block)) {text : String}
    (lacks : expr.LacksPair text) :
    expr.LeavesPairOut expr.render text ∧
      parse features ("x = " ++ text) ≠ .ok [.assign "x" expr] := by
  refine ⟨lacks.leavesPairOut, fun parsed => ?_⟩
  have everywhere : (Node.expr expr).Everywhere (Node.WellFormed features) :=
    fun inside isInside => wellFormed_of_parse accepted inside (isInside.trans within)
  obtain ⟨tokens, _, misses, reads⟩ :=
    (lacks.misreads everywhere).before (show StartsApart [] by rfl) reads_nil
  have kinds := (reads.assign readable_identifier_x 0).2
  have isText : "x".toList ++ ' ' :: '=' :: ' ' :: (text.toList ++ []) =
      ("x = " ++ text).toList := by
    simp
  rw [isText] at kinds
  have derived := (derivedFrom_of_parse parsed).1
  rw [Cursor.start, kinds] at derived
  obtain ⟨valueTokens, ending, rfl, ends, valueDerived⟩ := derived.value
  exact misses.not_derives_before ends valueDerived

/-- Without the pair the words `is` and `not` become one operator, which compares with the
sum. -/
theorem parse_ne_of_lacksPair_negation :
    parse FeatureSet.all "y = a is (not b) + c" = .ok [.assign "y" (.binary .is (.name "a")
      (.binary .add (.unary .not (.name "b")) (.name "c")))] ∧
    (Expr.binary .is (.name "a")
      (.binary .add (.unary .not (.name "b")) (.name "c"))).LacksPair "a is not b + c" ∧
    parse FeatureSet.all "x = a is not b + c" ≠ .ok [.assign "x" (.binary .is (.name "a")
      (.binary .add (.unary .not (.name "b")) (.name "c")))] := by
  have accepted : parse FeatureSet.all "y = a is (not b) + c" =
      .ok [.assign "y" (.binary .is (.name "a")
        (.binary .add (.unary .not (.name "b")) (.name "c")))] := by
    decide +kernel
  have within (value : Expr) : (Node.expr value).Within (.block [.assign "y" value]) :=
    .tail (.single (.assigned "y" value)) (.statement (List.mem_singleton_self _))
  have sum : (Expr.binary .add (.unary .not (.name "b")) (.name "c")).LacksPair "not b + c" :=
    .left (.name "c") rfl (by decide)
  have lacks : (Expr.binary .is (.name "a")
      (.binary .add (.unary .not (.name "b")) (.name "c"))).LacksPair "a is not b + c" :=
    .inRight .is (.name "a") sum
  exact ⟨accepted, lacks, (parse_ne_of_lacksPair accepted (within _) lacks).2⟩

end Scriptlet
