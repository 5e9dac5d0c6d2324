import Scriptlet.Proofs.Grammar.Nesting
import Scriptlet.Proofs.Grammar.Program

/-!
Contract: the tokens that canonical text spells, and that they derive the tree
they were made from.

Owns:
- the canonical tokens of expressions, statements and blocks;
- the levels at which operands stand without parentheses;
- every tree that some tokens derive is derived by its canonical tokens.

Does not own: that canonical text is cut into these tokens.
-/

namespace Scriptlet

namespace Expr

/-- Puts tokens in parentheses when asked to. -/
def parenthesizeTokens (needed : Bool) (tokens : List TokenKind) : List TokenKind :=
  if needed then .symbol .leftParen :: (tokens ++ [.symbol .rightParen]) else tokens

mutual

/-- Canonical tokens of an expression. -/
def tokens : Expr → List TokenKind
  | .integer value => [.integer value]
  | .name identifier => [.identifier identifier]
  | .array items => .symbol .leftBracket :: (listTokens items ++ [.symbol .rightBracket])
  | .unary .not operand =>
      .keyword .not :: parenthesizeTokens operand.needsParensUnderNot operand.tokens
  | .unary .negate operand =>
      .symbol .minus :: parenthesizeTokens operand.needsParensUnderSign operand.tokens
  | .unary .plus operand =>
      .symbol .plus :: parenthesizeTokens operand.needsParensUnderSign operand.tokens
  | .binary operator left right =>
      parenthesizeTokens (left.needsParensLeft operator) left.tokens ++
        operator.token :: parenthesizeTokens (right.needsParensRight operator) right.tokens
  | .index base offset =>
      base.tokens ++ .symbol .leftBracket :: (offset.tokens ++ [.symbol .rightBracket])
  | .call function arguments =>
      .identifier function :: .symbol .leftParen ::
        (listTokens arguments ++ [.symbol .rightParen])

/-- Canonical tokens of some expressions, with commas between them. -/
def listTokens : List Expr → List TokenKind
  | [] => []
  | [expr] => expr.tokens
  | expr :: next :: rest => expr.tokens ++ .symbol .comma :: listTokens (next :: rest)

end

/-! ## Operands without parentheses -/

theorem notLevel_le_of_needsParensUnderNot {operand : Expr}
    (free : operand.needsParensUnderNot = false) : notLevel ≤ operand.level := by
  cases operand with
  | binary operator left right =>
      simpa [needsParensUnderNot, binaryLevel?, level] using free
  | unary operator operand => cases operator <;> simp [level, notLevel, operandLevel]
  | _ => simp [level, notLevel, operandLevel]

theorem level_eq_of_needsParensUnderSign {operand : Expr}
    (free : operand.needsParensUnderSign = false) : operand.level = operandLevel := by
  cases operand with
  | binary operator left right => simp [needsParensUnderSign, binaryLevel?] at free
  | unary operator operand =>
      cases operator with
      | not => simp [needsParensUnderSign, isNot] at free
      | negate => rfl
      | plus => rfl
  | _ => rfl

theorem needsParensLeft_eq_false_iff {operator : BinaryOperator} {operand : Expr} :
    operand.needsParensLeft operator = false ↔
      operand.isNot = false ∧ operator.level ≤ operand.level := by
  have below := operator.level_lt_operandLevel
  cases operand with
  | binary => simp [needsParensLeft, isNot, binaryLevel?, level]
  | unary operator operand =>
      cases operator <;> simp [needsParensLeft, isNot, binaryLevel?, level] <;> omega
  | _ =>
      simp [needsParensLeft, isNot, binaryLevel?, level]
      omega

theorem level_lt_of_needsParensRight {operator : BinaryOperator} {operand : Expr}
    (free : operand.needsParensRight operator = false) : operator.level + 1 ≤ operand.level := by
  have below := operator.level_lt_operandLevel
  cases operand with
  | binary =>
      simpa [needsParensRight, isNot, binaryLevel?, level, Nat.succ_le_iff] using free
  | unary operator operand =>
      cases operator with
      | not => simp [needsParensRight, isNot] at free
      | negate => exact below
      | plus => exact below
  | _ => exact below

end Expr

/-! ## Expressions -/

namespace Expr

variable {features : FeatureSet}

/-- The canonical tokens derive the expression at its level, and as an operand
if they can stand as one. -/
def Canonical (features : FeatureSet) (expr : Expr) : Prop :=
  ExprForm.Derives features expr.tokens (.expression expr.level expr) ∧
    (expr.level = operandLevel → ExprForm.Derives features expr.tokens (.operand expr))

theorem Canonical.ofOperand {expr : Expr} (isOperand : expr.level = operandLevel)
    (derived : ExprForm.Derives features expr.tokens (.operand expr)) :
    expr.Canonical features := by
  refine ⟨?_, fun _ => derived⟩
  rw [isOperand]
  exact .ofOperand derived

theorem Canonical.ofLooser {expr : Expr} (looser : expr.level < operandLevel)
    (derived : ExprForm.Derives features expr.tokens (.expression expr.level expr)) :
    expr.Canonical features :=
  ⟨derived, fun isOperand => absurd isOperand (Nat.ne_of_lt looser)⟩

theorem Canonical.derives {expr : Expr} (canonical : expr.Canonical features) :
    ExprForm.Derives features expr.tokens (.expression 1 expr) :=
  canonical.1.loosen (Nat.le_refl 1) expr.one_le_level

/-- With parentheses where they are needed, an expression can stand at a
level. -/
theorem Canonical.derives_parenthesized {expr : Expr} (canonical : expr.Canonical features)
    {needed : Bool} {level : Nat} (positive : 1 ≤ level) (below : level ≤ operandLevel)
    (enough : needed = false → level ≤ expr.level) :
    ExprForm.Derives features (parenthesizeTokens needed expr.tokens)
      (.expression level expr) := by
  cases needed with
  | false => exact canonical.1.loosen positive (enough rfl)
  | true => exact ExprForm.Derives.ofOperandAt (.parentheses canonical.derives) positive below

theorem Canonical.derives_underSign {expr : Expr} (canonical : expr.Canonical features) :
    ExprForm.Derives features (parenthesizeTokens expr.needsParensUnderSign expr.tokens)
      (.operand expr) := by
  cases needed : expr.needsParensUnderSign with
  | false => exact canonical.2 (level_eq_of_needsParensUnderSign needed)
  | true => exact .parentheses canonical.derives

end Expr

namespace ExprForm

variable {features : FeatureSet}

/-- The canonical tokens of a form derive it.  A form that can be an expression
of some level says so for the level of its tree. -/
def Canonical (features : FeatureSet) : ExprForm → Prop
  | .expression _ expr | .operand expr => expr.Canonical features
  | .place expr =>
      expr.level = operandLevel ∧ Derives features expr.tokens (.place expr)
  | .list exprs => Derives features (Expr.listTokens exprs) (.list exprs)
  | .items exprs => Derives features (Expr.listTokens exprs) (.items exprs)

theorem Derives.exprs_ne_nil {tokens : List TokenKind} {exprs : List Expr}
    (derived : Derives features tokens (.items exprs)) : exprs ≠ [] := by
  cases derived with
  | one => exact List.cons_ne_nil _ _
  | more => exact List.cons_ne_nil _ _

/-- A tree that some tokens derive is derived by its canonical tokens. -/
theorem Derives.canonical {tokens : List TokenKind} {form : ExprForm}
    (derived : Derives features tokens form) : form.Canonical features := by
  induction derived with
  | ofOperand _ operand => exact operand
  | ofTighter _ _ tighter => exact tighter
  | @binary _ _ left right operator _ _ first second =>
      have below := operator.level_lt_operandLevel
      have leftDerived := first.derives_parenthesized operator.one_le_level
        (Nat.le_of_lt below) fun free => (Expr.needsParensLeft_eq_false_iff.mp free).2
      have rightDerived := second.derives_parenthesized (Nat.le_add_left 1 _)
        below Expr.level_lt_of_needsParensRight
      exact .ofLooser below (.binary operator leftDerived rightDerived)
  | negation _ negated =>
      have under := negated.derives_parenthesized (by decide) (by decide)
        Expr.notLevel_le_of_needsParensUnderNot
      exact .ofLooser (show notLevel < operandLevel by decide) (.negation under)
  | @sign _ _ operator isSign _ under =>
      cases operator with
      | not => contradiction
      | negate => exact .ofOperand rfl (.sign isSign under.derives_underSign)
      | plus => exact .ofOperand rfl (.sign isSign under.derives_underSign)
  | integer value => exact .ofOperand rfl (.integer value)
  | ofPlace _ place => exact .ofOperand place.1 (.ofPlace place.2)
  | parentheses _ inner => exact inner
  | array allowed _ inner => exact .ofOperand rfl (.array allowed inner)
  | name name => exact ⟨rfl, .name name⟩
  | call name allowed _ inner => exact ⟨rfl, .call name allowed inner⟩
  | index allowed _ _ base offset => exact ⟨rfl, .index allowed base.2 offset.derives⟩
  | empty => exact .empty
  | nonempty _ found => exact .nonempty found
  | one _ first => exact .one first.derives
  | @more _ _ expr exprs _ rest firstCanonical restCanonical =>
      obtain ⟨next, later, rfl⟩ := List.exists_cons_of_ne_nil rest.exprs_ne_nil
      exact .more firstCanonical.derives restCanonical

/-! ## Canonical tokens that start with an identifier -/

/-- An expression that starts with an identifier needs no parentheses at its
front, so its canonical tokens start with that identifier too. -/
def KeepsIdentifier (tokens : List TokenKind) : ExprForm → Prop
  | .expression level expr => ∀ name, tokens.head? = some (.identifier name) →
      level ≤ expr.level ∧ expr.isNot = false ∧
        expr.tokens.head? = some (.identifier name)
  | .operand expr | .place expr => ∀ name, tokens.head? = some (.identifier name) →
      expr.level = operandLevel ∧ expr.isNot = false ∧
        expr.tokens.head? = some (.identifier name)
  | .list _ | .items _ => True

theorem Derives.keepsIdentifier {tokens : List TokenKind} {form : ExprForm}
    (derived : Derives features tokens form) : form.KeepsIdentifier tokens := by
  induction derived with
  | ofOperand _ operand =>
      intro name head
      obtain ⟨isOperand, notNegated, starts⟩ := operand name head
      exact ⟨Nat.le_of_eq isOperand.symm, notNegated, starts⟩
  | ofTighter _ _ tighter =>
      intro name head
      obtain ⟨below, notNegated, starts⟩ := tighter name head
      exact ⟨Nat.le_of_succ_le below, notNegated, starts⟩
  | @binary leftTokens rightTokens left right operator first _ leftKeeps _ =>
      intro name head
      obtain ⟨leading, leadingHead, _⟩ := first.startsAs
      rw [head?_append_of_head? leadingHead] at head
      obtain ⟨below, notNegated, starts⟩ := leftKeeps name (leadingHead.trans head)
      have free : left.needsParensLeft operator = false :=
        Expr.needsParensLeft_eq_false_iff.mpr ⟨notNegated, below⟩
      refine ⟨Nat.le_refl _, rfl, ?_⟩
      simp only [Expr.tokens, free, Expr.parenthesizeTokens]
      exact head?_append_of_head? starts _
  | negation => exact fun name head => by simp at head
  | @sign _ _ operator =>
      exact fun name head => by cases operator <;> simp [UnaryOperator.token] at head
  | integer => exact fun name head => by simp at head
  | ofPlace _ place => exact place
  | parentheses => exact fun name head => by simp at head
  | array => exact fun name head => by simp at head
  | name => exact fun name head => ⟨rfl, rfl, head⟩
  | call => exact fun name head => ⟨rfl, rfl, head⟩
  | index _ first _ base _ =>
      intro name head
      obtain ⟨leading, leadingHead⟩ := first.startsAs
      rw [head?_append_of_head? leadingHead] at head
      obtain ⟨_, _, starts⟩ := base name (leadingHead.trans head)
      exact ⟨rfl, rfl, head?_append_of_head? starts _⟩
  | empty => trivial
  | nonempty => trivial
  | one => trivial
  | more => trivial

end ExprForm

/-! ## Statements -/

/-- Puts the canonical tokens of the lines of a block in braces. -/
def inBraceTokens (lines : List TokenKind) : List TokenKind :=
  .symbol .leftBrace :: .newline :: (lines ++ [.symbol .rightBrace])

namespace Statement

mutual

/-- Canonical tokens of a statement. -/
def tokens : Statement → List TokenKind
  | .assign name value => .identifier name :: .symbol .assign :: value.tokens
  | .store base offset value =>
      (Expr.index base offset).tokens ++ .symbol .assign :: value.tokens
  | .evaluate expr => expr.tokens
  | .choose branches otherwise =>
      branchTokens .ifThen branches ++
        (if otherwise.isEmpty then []
          else .keyword .otherwise :: inBraceTokens (linesTokens otherwise))
  | .loop initial condition step body =>
      .keyword .forLoop :: (initial.tokens ++ .symbol .semicolon ::
        ((condition.map Expr.tokens).getD [] ++ .symbol .semicolon ::
          (step.tokens ++ inBraceTokens (linesTokens body))))
  | .declare name parameters body =>
      .keyword .function :: .identifier name :: .symbol .leftParen ::
        (nameTokens parameters ++ .symbol .rightParen :: inBraceTokens (linesTokens body))
  | .giveBack value => .keyword .returns :: value.tokens
  | .skip => []

/-- Canonical tokens of some branches, the first one after `lead`. -/
def branchTokens (lead : Keyword) : List Branch → List TokenKind
  | [] => []
  | .mk condition body :: rest =>
      .keyword lead ::
        (condition.tokens ++ (inBraceTokens (linesTokens body) ++ branchTokens .elseIf rest))

/-- Canonical tokens of the lines of a block, a line feed after each. -/
def linesTokens : Block → List TokenKind
  | [] => []
  | statement :: rest => statement.tokens ++ .newline :: linesTokens rest

end

end Statement

namespace StatementForm

variable {features : FeatureSet}

/-- The canonical tokens of a form derive it. -/
def Canonical (features : FeatureSet) : StatementForm → Prop
  | .assignment tree => Derives features tree.tokens (.assignment tree)
  | .headerPart tree => Derives features tree.tokens (.headerPart tree)
  | .headerCondition condition =>
      Derives features ((condition.map Expr.tokens).getD []) (.headerCondition condition)
  | .elseIfs branches =>
      Derives features (Statement.branchTokens .elseIf branches) (.elseIfs branches)
  | .otherwise body =>
      Derives features
        (if body.isEmpty then []
          else .keyword .otherwise :: inBraceTokens (Statement.linesTokens body))
        (.otherwise body)
  | .bare tree | .statement tree => Derives features tree.tokens (.bare tree)
  | .statements body => Derives features (Statement.linesTokens body) (.statements body)
  | .block body => Derives features (inBraceTokens (Statement.linesTokens body)) (.block body)

/-- A tree that some tokens derive is derived by its canonical tokens. -/
theorem Derives.canonical {tokens : List TokenKind} {form : StatementForm}
    (derived : Derives features tokens form) : form.Canonical features := by
  induction derived with
  | assign name second => exact .assign name second.canonical.derives
  | store first second => exact .store first.canonical.2 second.canonical.derives
  | noPart => exact .noPart
  | somePart _ part => exact .somePart part
  | noCondition => exact .noCondition
  | someCondition found => exact .someCondition found.canonical.derives
  | noElseIf => exact .noElseIf
  | elseIf allowed test _ _ guarded rest =>
      exact .elseIf allowed test.canonical.derives guarded rest
  | noOtherwise => exact .noOtherwise
  | @someOtherwise _ body _ found =>
      cases body with
      | nil => exact .noOtherwise
      | cons => exact .someOtherwise found
  | ofAssignment _ assigned => exact .ofAssignment assigned
  | evaluate evaluated head =>
      exact .evaluate evaluated.canonical.derives (evaluated.keepsIdentifier _ head).2.2
  | @choose _ _ _ _ condition body otherwise branches allowed test _ _ _ guarded rest last =>
      have derived := Derives.choose allowed test.canonical.derives guarded rest last
      simpa [Canonical, Statement.tokens, Statement.branchTokens] using derived
  | loop allowed _ _ _ _ first test last repeated =>
      exact .loop allowed first test last repeated
  | declare name parameters allowed _ called =>
      exact .declare name parameters allowed called
  | giveBack allowed returned => exact .giveBack allowed returned.canonical.derives
  | ofBare _ _ bare => exact bare
  | noStatement => exact .noStatement
  | @nextStatement _ _ statement block _ _ first rest =>
      have line : Derives features (statement.tokens ++ [.newline]) (.statement statement) :=
        .ofBare first (.inr rfl)
      simpa [Canonical, Statement.linesTokens] using line.nextStatement rest
  | @braces _ _ _ block _ _ _ inner =>
      have derived := Derives.braces (.inr rfl) inner (.inl rfl)
      simpa [Canonical, inBraceTokens] using derived

end StatementForm

/-- A program that some tokens derive is derived by its canonical tokens. -/
theorem Block.DerivedFrom.canonical {features : FeatureSet} {tokens : List TokenKind}
    {block : Block} (derived : block.DerivedFrom features tokens) :
    block.DerivedFrom features (Statement.linesTokens block ++ [.endOfInput]) := by
  obtain ⟨_, statementTokens, _, statements, _⟩ := derived
  exact ⟨[], Statement.linesTokens block, .inl rfl, statements.canonical, rfl⟩

end Scriptlet
