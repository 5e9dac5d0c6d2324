import Scriptlet.Proofs.Canonical.Tokens
import Scriptlet.Proofs.Token.Reads

/-!
Contract: canonical text is cut into canonical tokens.

Owns:
- for expressions and their lists, and for statements, branches and blocks, that
  the text of a tree in front of a text is cut into the tokens of the tree and
  those of the text.

The trees are those that readable tokens derive: only their names, literals and
keywords are known to be lexemes.
-/

namespace Scriptlet

open Text

variable {features : FeatureSet} {chars : List Char} {kinds : List TokenKind}

/-! ## Symbols and operators -/

/-- A symbol of one character that no other symbol starts with. -/
theorem Reads.delimiter {sign : Symbol} {char : Char} (reads : Reads features chars kinds)
    (spelled : sign.spelling.toList = [char]) (allowed : sign.gate.all features.has = true)
    (single : sign ≠ .less ∧ sign ≠ .greater) :
    Reads features (char :: chars) (.symbol sign :: kinds) := by
  have lexes : LexesTo features sign.spelling.toList (.symbol sign) chars :=
    lexesTo_symbol allowed fun compares => absurd compares (not_or.mpr single)
  rw [spelled] at lexes
  exact lexes.reads reads

/-- A comma in front of the next member of a list. -/
theorem Reads.comma (reads : Reads features chars kinds) :
    Reads features (',' :: ' ' :: chars) (.symbol .comma :: kinds) :=
  reads.space.delimiter rfl rfl (by decide)

/-- A keyword with a space after it. -/
theorem Reads.keyword (reads : Reads features chars kinds) (keyword : Keyword)
    (plain : keyword ≠ .is ∧ keyword ≠ .isNot)
    (allowed : keyword.gate.all features.has = true) :
    Reads features (keyword.spelling.toList ++ ' ' :: chars) (.keyword keyword :: kinds) := by
  have apart : StartsApart (' ' :: chars) := rfl
  exact (lexesTo_keyword apart plain.1 plain.2 allowed).reads reads.space

/-- A binary operator is written as the token it is, and exists under every
feature set. -/
theorem BinaryOperator.symbol_eq_spelling (operator : BinaryOperator) :
    (∃ keyword : Keyword, operator.token = .keyword keyword ∧
        operator.symbol = keyword.spelling ∧ keyword.gate = none) ∨
      ∃ sign : Symbol, operator.token = .symbol sign ∧
        operator.symbol = sign.spelling ∧ sign.gate = none := by
  cases operator with
  | or | and | is | isNot => exact .inl ⟨_, rfl, rfl, rfl⟩
  | _ => exact .inr ⟨_, rfl, rfl, rfl⟩

/-- A binary operator in front of its right operand. -/
theorem Reads.operator (reads : Reads features chars kinds) (operator : BinaryOperator)
    (notNot : operator = .is → kinds.head? ≠ some (.keyword .not)) :
    Reads features (operator.symbol.toList ++ ' ' :: chars) (operator.token :: kinds) := by
  have apart : StartsApart (' ' :: chars) := rfl
  have lexes : LexesTo features operator.symbol.toList operator.token (' ' :: chars) := by
    obtain ⟨keyword, isToken, isSpelling, free⟩ | ⟨sign, isToken, isSpelling, free⟩ :=
      operator.symbol_eq_spelling
    · rw [isToken, isSpelling]
      by_cases isIs : keyword = .is
      · have found := operator.ofToken?_token
        rw [isToken, isIs] at found
        rw [isIs]
        exact lexesTo_is reads (notNot (Option.some.inj found).symm)
      · by_cases isIsNot : keyword = .isNot
        · rw [isIsNot]
          exact lexesTo_isNot apart
        · exact lexesTo_keyword apart isIs isIsNot (by rw [free]; rfl)
    · rw [isToken, isSpelling]
      exact lexesTo_symbol (by rw [free]; rfl) (by simp)
  exact lexes.reads reads.space

/-! ## Expressions -/

/-- Whether a text in front of another one gives its tokens in front of those of
the other. -/
structure ReadsBefore (features : FeatureSet) (text : String) (tokens : List TokenKind) :
    Prop where
  before : ∀ {chars : List Char} {kinds : List TokenKind}, StartsApart chars →
    Reads features chars kinds → Reads features (text.toList ++ chars) (tokens ++ kinds)

/-- What stands in brackets of some kind. -/
theorem ReadsBefore.enclosed {text : String} {tokens : List TokenKind} {left right : Symbol}
    {opening closing : Char} (readsText : ReadsBefore features text tokens)
    (reads : Reads features chars kinds)
    (opens : left.spelling.toList = [opening]) (closes : right.spelling.toList = [closing])
    (leftAllowed : left.gate.all features.has = true)
    (rightAllowed : right.gate.all features.has = true)
    (single : (left ≠ .less ∧ left ≠ .greater) ∧ right ≠ .less ∧ right ≠ .greater)
    (apart : isWordChar closing = false) :
    Reads features (opening :: (text.toList ++ closing :: chars))
      (.symbol left :: (tokens ++ .symbol right :: kinds)) := by
  have closed := reads.delimiter closes rightAllowed single.2
  have inner := readsText.before (show StartsApart (closing :: chars) by simpa [StartsApart]) closed
  exact inner.delimiter opens leftAllowed single.1

theorem ReadsBefore.parenthesized {text : String} {tokens : List TokenKind}
    (readsText : ReadsBefore features text tokens) (needed : Bool) :
    ReadsBefore features (Expr.parenthesize needed text)
      (Expr.parenthesizeTokens needed tokens) := by
  refine ⟨fun {chars kinds} apart reads => ?_⟩
  cases needed with
  | false => exact readsText.before apart reads
  | true =>
      have enclosed : Reads features ('(' :: (text.toList ++ ')' :: chars))
          (.symbol .leftParen :: (tokens ++ .symbol .rightParen :: kinds)) :=
        readsText.enclosed reads rfl rfl rfl rfl (by decide) (by decide +kernel)
      simpa [Expr.parenthesize, Expr.parenthesizeTokens] using enclosed

namespace ExprForm

/-- The canonical text of a form is cut into its canonical tokens. -/
def ReadsCanonically (features : FeatureSet) : ExprForm → Prop
  | .expression _ expr | .operand expr | .place expr =>
      ReadsBefore features expr.render expr.tokens
  | .list exprs | .items exprs =>
      ReadsBefore features (", ".intercalate (exprs.map Expr.render)) (Expr.listTokens exprs)

/-- The right operand of a comparison does not start with `not`, so it can stand
after `is`. -/
theorem head?_rightTokens_ne_not {right : Expr} (canonical : right.Canonical features)
    (kinds : List TokenKind) :
    (Expr.parenthesizeTokens (right.needsParensRight .is) right.tokens ++ kinds).head? ≠
      some (.keyword .not) := by
  have derived : Derives features
      (Expr.parenthesizeTokens (right.needsParensRight .is) right.tokens)
      (.expression (BinaryOperator.is.level + 1) right) :=
    canonical.derives_parenthesized (by decide) (by decide) Expr.level_lt_of_needsParensRight
  obtain ⟨first, head, starts | ⟨_, loose⟩⟩ := derived.startsAs
  · rw [head?_append_of_head? head]
    intro isNot
    rw [Option.some.inj isNot] at starts
    cases starts
  · exact absurd loose (by decide)

/-- The canonical text of what readable tokens derive is cut into its canonical
tokens. -/
theorem Derives.readsCanonically {tokens : List TokenKind} {form : ExprForm}
    (derived : Derives features tokens form)
    (readable : ∀ kind ∈ tokens, kind.Readable features) :
    form.ReadsCanonically features := by
  induction derived with
  | ofOperand _ operand => exact operand readable
  | ofTighter _ _ tighter => exact tighter readable
  | @binary _ _ left right operator _ second leftReads rightReads =>
      simp only [List.forall_mem_append, List.forall_mem_cons] at readable
      have leftReads := (leftReads readable.1).parenthesized (left.needsParensLeft operator)
      have rightReads :=
        (rightReads readable.2.2).parenthesized (right.needsParensRight operator)
      refine ⟨fun {chars kinds} apart reads => ?_⟩
      have rightText := rightReads.before apart reads
      have operatorText := rightText.operator operator fun isIs => by
        rw [isIs]
        exact head?_rightTokens_ne_not second.canonical kinds
      have leftText := leftReads.before (show StartsApart (' ' :: _) by rfl) operatorText.space
      simpa [Expr.render, Expr.tokens] using leftText
  | @negation _ expr _ negated =>
      rw [List.forall_mem_cons] at readable
      have under := (negated readable.2).parenthesized expr.needsParensUnderNot
      refine ⟨fun {chars kinds} apart reads => ?_⟩
      have text := (under.before apart reads).keyword .not (by decide) rfl
      simpa [Expr.render, Expr.tokens, Keyword.spelling] using text
  | @sign _ expr operator isSign _ under =>
      rw [List.forall_mem_cons] at readable
      have under := (under readable.2).parenthesized expr.needsParensUnderSign
      refine ⟨fun {chars kinds} apart reads => ?_⟩
      have operandText := under.before apart reads
      cases operator with
      | not => contradiction
      | negate =>
          have text : Reads features ('-' :: _) (.symbol .minus :: _) :=
            operandText.delimiter rfl rfl (by decide)
          simpa [Expr.render, Expr.tokens] using text
      | plus =>
          have text : Reads features ('+' :: _) (.symbol .plus :: _) :=
            operandText.delimiter rfl rfl (by decide)
          simpa [Expr.render, Expr.tokens] using text
  | integer value =>
      rw [List.forall_mem_singleton] at readable
      refine ⟨fun apart reads => ?_⟩
      exact (lexesTo_integer apart readable).reads reads
  | ofPlace _ place => exact place readable
  | parentheses _ inner =>
      simp only [List.forall_mem_append, List.forall_mem_cons] at readable
      exact inner readable.2.1
  | array allowed _ inner =>
      simp only [List.forall_mem_append, List.forall_mem_cons] at readable
      refine ⟨fun {chars kinds} _ reads => ?_⟩
      have text : Reads features ('[' :: (_ ++ ']' :: chars))
          (.symbol .leftBracket :: (_ ++ .symbol .rightBracket :: kinds)) :=
        (inner readable.2.1).enclosed reads rfl rfl allowed allowed (by decide) (by decide +kernel)
      simpa [Expr.render, Expr.tokens] using text
  | name name =>
      rw [List.forall_mem_singleton] at readable
      refine ⟨fun apart reads => ?_⟩
      exact (lexesTo_identifier apart readable).reads reads
  | call name allowed _ inner =>
      simp only [List.forall_mem_append, List.forall_mem_cons] at readable
      refine ⟨fun {chars kinds} _ reads => ?_⟩
      have argumentText : Reads features ('(' :: (_ ++ ')' :: chars))
          (.symbol .leftParen :: (_ ++ .symbol .rightParen :: kinds)) :=
        (inner readable.2.2.1).enclosed reads rfl rfl rfl rfl (by decide) (by decide +kernel)
      have text := (lexesTo_identifier (show StartsApart ('(' :: _) by rfl) readable.1).reads
        argumentText
      simpa [Expr.render, Expr.tokens] using text
  | index allowed _ _ base offset =>
      simp only [List.forall_mem_append, List.forall_mem_cons] at readable
      refine ⟨fun {chars kinds} _ reads => ?_⟩
      have offsetText : Reads features ('[' :: (_ ++ ']' :: chars))
          (.symbol .leftBracket :: (_ ++ .symbol .rightBracket :: kinds)) :=
        (offset readable.2.2.1).enclosed reads rfl rfl allowed allowed (by decide)
          (by decide +kernel)
      have text := (base readable.1).before (show StartsApart ('[' :: _) by rfl) offsetText
      simpa [Expr.render, Expr.tokens] using text
  | empty => exact ⟨fun _ reads => reads⟩
  | nonempty _ found => exact found readable
  | one _ first => simpa [ReadsCanonically, Expr.listTokens] using first readable
  | @more _ _ expr exprs _ rest firstReads restReads =>
      simp only [List.forall_mem_append, List.forall_mem_cons] at readable
      obtain ⟨next, later, rfl⟩ := List.exists_cons_of_ne_nil rest.exprs_ne_nil
      refine ⟨fun {chars kinds} apart reads => ?_⟩
      have commaText := ((restReads readable.2.2).before apart reads).comma
      have text := (firstReads readable.1).before (show StartsApart (',' :: _) by rfl) commaText
      simpa [Expr.listTokens] using text

end ExprForm

/-! ## Statements -/

/-- Whether a text gives its tokens in front of those of any other text. -/
structure ReadsAnywhere (features : FeatureSet) (text : String) (tokens : List TokenKind) :
    Prop where
  before : ∀ {chars : List Char} {kinds : List TokenKind},
    Reads features chars kinds → Reads features (text.toList ++ chars) (tokens ++ kinds)

theorem readsBefore_names {names : List String}
    (readable : ∀ kind ∈ nameTokens names, kind.Readable features) :
    ReadsBefore features (", ".intercalate names) (nameTokens names) := by
  induction names with
  | nil => exact ⟨fun _ reads => reads⟩
  | cons name rest inductionHypothesis =>
      refine ⟨fun {chars kinds} apart reads => ?_⟩
      cases rest with
      | nil =>
          have readableName := readable _ List.mem_cons_self
          simpa [nameTokens] using (lexesTo_identifier apart readableName).reads reads
      | cons next rest =>
          have isTokens : nameTokens (name :: next :: rest) =
              .identifier name :: .symbol .comma :: nameTokens (next :: rest) := rfl
          rw [isTokens, List.forall_mem_cons, List.forall_mem_cons] at readable
          have commaText := ((inductionHypothesis readable.2.2).before apart reads).comma
          have text := (lexesTo_identifier (show StartsApart (',' :: _) by rfl) readable.1).reads
            commaText
          simpa [isTokens] using text

namespace StatementForm

/-- The canonical text of a form is cut into its canonical tokens.  Lines end
with a line feed, so no line feed may follow them. -/
def ReadsCanonically (features : FeatureSet) : StatementForm → Prop
  | .assignment tree | .headerPart tree | .bare tree | .statement tree =>
      ∀ depth, ReadsBefore features (tree.renderAt depth) tree.tokens
  | .headerCondition condition =>
      ReadsBefore features ((condition.map Expr.render).getD "")
        ((condition.map Expr.tokens).getD [])
  | .elseIfs branches =>
      ∀ depth, ReadsAnywhere features (Statement.renderBranches depth " elif " branches)
        (Statement.branchTokens .elseIf branches)
  | .otherwise body =>
      ∀ depth, ReadsAnywhere features
        (if body.isEmpty then ""
          else " else " ++ inBraces depth (Statement.renderLines (depth + 1) body))
        (if body.isEmpty then []
          else .keyword .otherwise :: inBraceTokens (Statement.linesTokens body))
  | .statements body =>
      ∀ depth {chars : List Char} {kinds : List TokenKind},
        Reads features chars kinds → kinds.head? ≠ some .newline →
        Reads features ((Statement.renderLines depth body).toList ++ chars)
          (Statement.linesTokens body ++ kinds)
  | .block body =>
      ∀ depth, ReadsAnywhere features (inBraces depth (Statement.renderLines (depth + 1) body))
        (inBraceTokens (Statement.linesTokens body))

/-- No line starts with a line feed. -/
theorem Derives.head?_linesTokens {tokens : List TokenKind} {body : Block}
    (derived : Derives features tokens (.statements body))
    (notNewline : kinds.head? ≠ some .newline) :
    (Statement.linesTokens body ++ kinds).head? ≠ some .newline := by
  cases derived with
  | noStatement => exact notNewline
  | @nextStatement _ _ statement block first _ =>
      obtain ⟨leading, head, starts⟩ := first.canonical.head?_bare
      rw [Statement.linesTokens, List.append_assoc, ExprForm.head?_append_of_head? head]
      intro isNewline
      rw [Option.some.inj isNewline] at starts
      cases starts

theorem readsAnywhere_braces {tokens : List TokenKind} {body : Block}
    (derived : Derives features tokens (.statements body))
    (inner : ReadsCanonically features (.statements body)) :
    ReadsCanonically features (.block body) := by
  refine fun depth => ⟨fun {chars kinds} reads => ?_⟩
  have notNewline : (TokenKind.symbol .rightBrace :: kinds).head? ≠ some .newline := by simp
  have closing : Reads features ('\x7d' :: chars) (.symbol .rightBrace :: kinds) :=
    reads.delimiter rfl rfl (by decide)
  have lines := inner (depth + 1) (closing.spaces (4 * depth)) notNewline
  have opening : Reads features ('\x7b' :: _) (.symbol .leftBrace :: _) :=
    (lines.newline (derived.head?_linesTokens notNewline)).delimiter rfl rfl (by decide)
  simpa [inBraces, inBraceTokens, indentation] using opening

/-- A condition and its block after the keyword that leads them. -/
theorem reads_branch {condition : Expr} {block : String} {blockTokens : List TokenKind}
    (test : ReadsBefore features condition.render condition.tokens)
    (guarded : ReadsAnywhere features block blockTokens) (reads : Reads features chars kinds)
    (lead : Keyword) (plain : lead ≠ .is ∧ lead ≠ .isNot)
    (allowed : lead.gate.all features.has = true) :
    Reads features
      (lead.spelling.toList ++ ' ' :: (condition.render.toList ++ ' ' :: (block.toList ++ chars)))
      (.keyword lead :: (condition.tokens ++ (blockTokens ++ kinds))) := by
  have blockText := (guarded.before reads).space
  have conditionText := test.before (show StartsApart (' ' :: _) by rfl) blockText
  exact conditionText.keyword lead plain allowed

theorem readsBefore_assign {name : String} {value : Expr}
    (readable : (TokenKind.identifier name).Readable features)
    (valueReads : ReadsBefore features value.render value.tokens) (depth : Nat) :
    ReadsBefore features ((Statement.assign name value).renderAt depth)
      (Statement.assign name value).tokens := by
  refine ⟨fun {chars kinds} apart reads => ?_⟩
  have valueText := (valueReads.before apart reads).space
  have assignText : Reads features ('=' :: _) (.symbol .assign :: _) :=
    valueText.delimiter rfl rfl (by decide)
  have text := (lexesTo_identifier (show StartsApart (' ' :: _) by rfl) readable).reads
    assignText.space
  simpa [Statement.renderAt, Statement.tokens] using text

theorem readsBefore_store {base offset value : Expr}
    (targetReads : ReadsBefore features (Expr.index base offset).render
      (Expr.index base offset).tokens)
    (valueReads : ReadsBefore features value.render value.tokens) (depth : Nat) :
    ReadsBefore features ((Statement.store base offset value).renderAt depth)
      (Statement.store base offset value).tokens := by
  refine ⟨fun {chars kinds} apart reads => ?_⟩
  have valueText := (valueReads.before apart reads).space
  have assignText : Reads features ('=' :: _) (.symbol .assign :: _) :=
    valueText.delimiter rfl rfl (by decide)
  have text := targetReads.before (show StartsApart (' ' :: _) by rfl) assignText.space
  simpa [Statement.renderAt, Statement.tokens, Expr.render] using text

/-- No space stands before the block of a loop when the step is left out. -/
theorem renderAt_loop (initial : Statement) (condition : Option Expr) (step : Statement)
    (body : Block) (depth : Nat) :
    ∃ gap, (Statement.loop initial condition step body).renderAt depth =
      "for " ++ initial.renderAt depth ++ "; " ++ (condition.map Expr.render).getD "" ++ "; " ++
        step.renderAt depth ++ String.ofList (List.replicate gap ' ') ++
        inBraces depth (Statement.renderLines (depth + 1) body) := by
  cases step with
  | skip => exact ⟨0, rfl⟩
  | _ => exact ⟨1, rfl⟩

theorem readsBefore_loop {initial step : Statement} {condition : Option Expr} {body : Block}
    (allowed : Feature.loop ∈ features)
    (first : ReadsCanonically features (.headerPart initial))
    (test : ReadsCanonically features (.headerCondition condition))
    (last : ReadsCanonically features (.headerPart step))
    (repeated : ReadsCanonically features (.block body)) (depth : Nat) :
    ReadsBefore features ((Statement.loop initial condition step body).renderAt depth)
      (Statement.loop initial condition step body).tokens := by
  refine ⟨fun {chars kinds} _ reads => ?_⟩
  have bodyText := (repeated depth).before reads
  obtain ⟨gap, isText⟩ := renderAt_loop initial condition step body depth
  have apart : StartsApart (List.replicate gap ' ' ++
      ((inBraces depth (Statement.renderLines (depth + 1) body)).toList ++ chars)) := by
    cases gap with
    | zero => simp [inBraces, StartsApart]; decide +kernel
    | succ gap => rfl
  have stepText := ((last depth).before apart (bodyText.spaces gap)).space
  have secondText : Reads features (';' :: _) (.symbol .semicolon :: _) :=
    stepText.delimiter rfl rfl (by decide)
  have conditionText := (test.before (show StartsApart (';' :: _) by rfl) secondText).space
  have firstText : Reads features (';' :: _) (.symbol .semicolon :: _) :=
    conditionText.delimiter rfl rfl (by decide)
  have initialText := (first depth).before (show StartsApart (';' :: _) by rfl) firstText
  have text := initialText.keyword .forLoop (by decide) allowed
  simpa [isText, Statement.tokens, Keyword.spelling] using text

theorem readsBefore_declare {name : String} {parameters : List String} {body : Block}
    (allowed : Feature.function ∈ features)
    (readableName : (TokenKind.identifier name).Readable features)
    (readableParameters : ∀ kind ∈ nameTokens parameters, kind.Readable features)
    (called : ReadsCanonically features (.block body)) (depth : Nat) :
    ReadsBefore features ((Statement.declare name parameters body).renderAt depth)
      (Statement.declare name parameters body).tokens := by
  refine ⟨fun {chars kinds} _ reads => ?_⟩
  have bodyText := ((called depth).before reads).space
  have parameterText : Reads features ('(' :: (_ ++ ')' :: _))
      (.symbol .leftParen :: (_ ++ .symbol .rightParen :: _)) :=
    (readsBefore_names readableParameters).enclosed bodyText rfl rfl rfl rfl (by decide)
      (by decide +kernel)
  have nameText := (lexesTo_identifier (show StartsApart ('(' :: _) by rfl) readableName).reads
    parameterText
  have text := nameText.keyword .function (by decide) allowed
  simpa [Statement.renderAt, Statement.tokens, Keyword.spelling] using text

/-- The canonical text of what readable tokens derive is cut into its canonical
tokens. -/
theorem Derives.readsCanonically {tokens : List TokenKind} {form : StatementForm}
    (derived : Derives features tokens form)
    (readable : ∀ kind ∈ tokens, kind.Readable features) :
    form.ReadsCanonically features := by
  induction derived with
  | assign name second =>
      simp only [List.forall_mem_cons] at readable
      exact readsBefore_assign readable.1 (second.readsCanonically readable.2.2)
  | store first second =>
      simp only [List.forall_mem_append, List.forall_mem_cons] at readable
      exact readsBefore_store (first.readsCanonically readable.1)
        (second.readsCanonically readable.2.2)
  | noPart => exact fun _ => ⟨fun _ reads => reads⟩
  | somePart _ part => exact part readable
  | noCondition => exact ⟨fun _ reads => reads⟩
  | someCondition found => exact found.readsCanonically readable
  | noElseIf => exact fun _ => ⟨fun reads => reads⟩
  | elseIf allowed test _ _ guarded rest =>
      simp only [List.forall_mem_append, List.forall_mem_cons] at readable
      refine fun depth => ⟨fun {chars kinds} reads => ?_⟩
      have text := reads_branch (test.readsCanonically readable.2.1)
        (guarded readable.2.2.1 depth) ((rest readable.2.2.2 depth).before reads) .elseIf
        (by decide) allowed
      simpa [Statement.renderBranches, Statement.branchTokens, Keyword.spelling] using text.space
  | noOtherwise => exact fun _ => ⟨fun reads => reads⟩
  | @someOtherwise _ body _ found =>
      rw [List.forall_mem_cons] at readable
      cases body with
      | nil => exact fun _ => ⟨fun reads => reads⟩
      | cons first rest =>
          refine fun depth => ⟨fun {chars kinds} reads => ?_⟩
          have text := ((found readable.2 depth).before reads).keyword .otherwise (by decide)
            readable.1
          simpa [Keyword.spelling] using text.space
  | ofAssignment _ assigned => exact assigned readable
  | evaluate evaluated _ => exact fun _ => evaluated.readsCanonically readable
  | choose allowed test _ _ _ guarded rest last =>
      simp only [List.forall_mem_append, List.forall_mem_cons] at readable
      refine fun depth => ⟨fun {chars kinds} _ reads => ?_⟩
      have otherwiseText := (last readable.2.2.2.2 depth).before reads
      have text := reads_branch (test.readsCanonically readable.2.1)
        (guarded readable.2.2.1 depth)
        ((rest readable.2.2.2.1 depth).before otherwiseText) .ifThen (by decide) allowed
      simpa [Statement.renderAt, Statement.tokens, Statement.renderBranches,
        Statement.branchTokens, Keyword.spelling] using text
  | loop allowed _ _ _ _ first test last repeated =>
      simp only [List.forall_mem_append, List.forall_mem_cons] at readable
      exact readsBefore_loop allowed (first readable.2.1) (test readable.2.2.2.1)
        (last readable.2.2.2.2.2.1) (repeated readable.2.2.2.2.2.2)
  | declare name parameters allowed _ called =>
      simp only [List.forall_mem_append, List.forall_mem_cons] at readable
      exact readsBefore_declare allowed readable.2.1 readable.2.2.2.1
        (called readable.2.2.2.2.2)
  | giveBack allowed returned =>
      rw [List.forall_mem_cons] at readable
      refine fun depth => ⟨fun {chars kinds} apart reads => ?_⟩
      have valueText := (returned.readsCanonically readable.2).before apart reads
      have text := valueText.keyword .returns (by decide) allowed
      simpa [Statement.renderAt, Statement.tokens, Keyword.spelling] using text
  | ofBare _ _ bare => exact bare fun kind member => readable kind (List.mem_append_left _ member)
  | noStatement => exact fun _ _ _ reads _ => reads
  | nextStatement _ others first rest =>
      rw [List.forall_mem_append] at readable
      intro depth chars kinds reads notNewline
      have restText := rest readable.2 depth reads notNewline
      have lineEnd := restText.newline (others.head?_linesTokens notNewline)
      have line := (first readable.1 depth).before (show StartsApart ('\n' :: _) by rfl) lineEnd
      have text := line.spaces (4 * depth)
      simpa [Statement.renderLines, Statement.linesTokens, indentation] using text
  | braces _ statements _ inner =>
      simp only [List.forall_mem_append, List.forall_mem_cons] at readable
      exact readsAnywhere_braces statements (inner readable.2.2.1)

end StatementForm

end Scriptlet
