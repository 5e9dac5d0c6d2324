import Scriptlet.Parse.Program
import Scriptlet.Proofs.Grammar.Expression

/-!
Contract: the grammar of statements, blocks and whole programs.

Statements need nothing between them.  A line feed may stand at the start of a
program, after a statement, after an opening brace and after a block, and
nowhere else.
-/

namespace Scriptlet

/-- Nothing, or one line feed. -/
def OptionalNewline (tokens : List TokenKind) : Prop :=
  tokens = [] ∨ tokens = [.newline]

/-- Identifiers with commas between them. -/
def nameTokens (names : List String) : List TokenKind :=
  (names.map TokenKind.identifier).intersperse (.symbol .comma)

/-- A nonterminal of the grammar of statements, with the tree it stands for. -/
inductive StatementForm where
  | assignment (statement : Statement)
  /-- A part of a loop header, possibly left out. -/
  | headerPart (statement : Statement)
  /-- The condition of a loop header, possibly left out. -/
  | headerCondition (condition : Option Expr)
  /-- The branches of a chain of conditions after its first one. -/
  | elseIfs (branches : List Branch)
  /-- The last block of a chain of conditions, possibly left out. -/
  | otherwise (block : Block)
  /-- A statement without the line feed after it. -/
  | bare (statement : Statement)
  | statement (statement : Statement)
  | statements (block : Block)
  /-- A block in braces. -/
  | block (block : Block)

namespace StatementForm

/-- The token sequences that derive a tree under a feature set. -/
inductive Derives (features : FeatureSet) : List TokenKind → StatementForm → Prop where
  | assign {valueTokens : List TokenKind} {value : Expr} (name : String)
      (second : ExprForm.Derives features valueTokens (.expression 1 value)) :
      Derives features (.identifier name :: .symbol .assign :: valueTokens)
        (.assignment (.assign name value))
  | store {targetTokens valueTokens : List TokenKind} {base offset value : Expr}
      (first : ExprForm.Derives features targetTokens (.place (.index base offset)))
      (second : ExprForm.Derives features valueTokens (.expression 1 value)) :
      Derives features (targetTokens ++ .symbol .assign :: valueTokens)
        (.assignment (.store base offset value))
  | noPart : Derives features [] (.headerPart .skip)
  | somePart {tokens : List TokenKind} {statement : Statement}
      (part : Derives features tokens (.assignment statement)) :
      Derives features tokens (.headerPart statement)
  | noCondition : Derives features [] (.headerCondition none)
  | someCondition {tokens : List TokenKind} {condition : Expr}
      (found : ExprForm.Derives features tokens (.expression 1 condition)) :
      Derives features tokens (.headerCondition (some condition))
  | noElseIf : Derives features [] (.elseIfs [])
  | elseIf {conditionTokens bodyTokens restTokens : List TokenKind} {condition : Expr}
      {body : Block} {branches : List Branch} (allowed : Feature.elseIf ∈ features)
      (test : ExprForm.Derives features conditionTokens (.expression 1 condition))
      (guarded : Derives features bodyTokens (.block body))
      (rest : Derives features restTokens (.elseIfs branches)) :
      Derives features (.keyword .elseIf :: (conditionTokens ++ (bodyTokens ++ restTokens)))
        (.elseIfs (.mk condition body :: branches))
  | noOtherwise : Derives features [] (.otherwise [])
  | someOtherwise {tokens : List TokenKind} {body : Block}
      (found : Derives features tokens (.block body)) :
      Derives features (.keyword .otherwise :: tokens) (.otherwise body)
  | ofAssignment {tokens : List TokenKind} {statement : Statement}
      (assigned : Derives features tokens (.assignment statement)) :
      Derives features tokens (.bare statement)
  | evaluate {tokens : List TokenKind} {expr : Expr} {name : String}
      (evaluated : ExprForm.Derives features tokens (.expression 1 expr))
      (head : tokens.head? = some (.identifier name)) :
      Derives features tokens (.bare (.evaluate expr))
  | choose {conditionTokens bodyTokens restTokens otherwiseTokens : List TokenKind}
      {condition : Expr} {body otherwise : Block} {branches : List Branch}
      (allowed : Feature.conditional ∈ features)
      (test : ExprForm.Derives features conditionTokens (.expression 1 condition))
      (guarded : Derives features bodyTokens (.block body))
      (rest : Derives features restTokens (.elseIfs branches))
      (last : Derives features otherwiseTokens (.otherwise otherwise)) :
      Derives features
        (.keyword .ifThen ::
          (conditionTokens ++ (bodyTokens ++ (restTokens ++ otherwiseTokens))))
        (.bare (.choose (.mk condition body :: branches) otherwise))
  | loop {initialTokens conditionTokens stepTokens bodyTokens : List TokenKind}
      {initial step : Statement} {condition : Option Expr} {body : Block}
      (allowed : Feature.loop ∈ features)
      (first : Derives features initialTokens (.headerPart initial))
      (test : Derives features conditionTokens (.headerCondition condition))
      (last : Derives features stepTokens (.headerPart step))
      (repeated : Derives features bodyTokens (.block body)) :
      Derives features
        (.keyword .forLoop :: (initialTokens ++ .symbol .semicolon ::
          (conditionTokens ++ .symbol .semicolon :: (stepTokens ++ bodyTokens))))
        (.bare (.loop initial condition step body))
  | declare {bodyTokens : List TokenKind} {body : Block} (name : String)
      (parameters : List String) (allowed : Feature.function ∈ features)
      (called : Derives features bodyTokens (.block body)) :
      Derives features
        (.keyword .function :: .identifier name :: .symbol .leftParen ::
          (nameTokens parameters ++ .symbol .rightParen :: bodyTokens))
        (.bare (.declare name parameters body))
  | giveBack {tokens : List TokenKind} {value : Expr} (allowed : Feature.function ∈ features)
      (returned : ExprForm.Derives features tokens (.expression 1 value)) :
      Derives features (.keyword .returns :: tokens) (.bare (.giveBack value))
  | ofBare {tokens ending : List TokenKind} {statement : Statement}
      (bare : Derives features tokens (.bare statement)) (ends : OptionalNewline ending) :
      Derives features (tokens ++ ending) (.statement statement)
  | noStatement : Derives features [] (.statements [])
  | nextStatement {firstTokens restTokens : List TokenKind} {statement : Statement} {block : Block}
      (first : Derives features firstTokens (.statement statement))
      (rest : Derives features restTokens (.statements block)) :
      Derives features (firstTokens ++ restTokens) (.statements (statement :: block))
  | braces {opening tokens ending : List TokenKind} {block : Block}
      (opens : OptionalNewline opening)
      (inner : Derives features tokens (.statements block))
      (ends : OptionalNewline ending) :
      Derives features
        (.symbol .leftBrace :: (opening ++ (tokens ++ .symbol .rightBrace :: ending)))
        (.block block)

end StatementForm

/-- The token sequences that derive a program under a feature set. -/
def Block.DerivedFrom (features : FeatureSet) (tokens : List TokenKind) (block : Block) : Prop :=
  ∃ opening statementTokens, OptionalNewline opening ∧
    StatementForm.Derives features statementTokens (.statements block) ∧
    tokens = opening ++ (statementTokens ++ [.endOfInput])

namespace StatementForm

variable {features : FeatureSet}

/-! ## First tokens -/

/-- Whether a statement can start with a token. -/
def startsStatement : TokenKind → Bool
  | .identifier _ => true
  | .keyword .ifThen | .keyword .forLoop | .keyword .function | .keyword .returns => true
  | _ => false

theorem Derives.head?_assignment {tokens : List TokenKind} {statement : Statement}
    (derived : Derives features tokens (.assignment statement)) :
    ∃ name, tokens.head? = some (.identifier name) := by
  cases derived with
  | assign name _ => exact ⟨name, rfl⟩
  | store target _ =>
      obtain ⟨name, head⟩ := target.startsAs
      exact ⟨name, ExprForm.head?_append_of_head? head _⟩

theorem Derives.head?_bare {tokens : List TokenKind} {statement : Statement}
    (derived : Derives features tokens (.bare statement)) :
    ∃ first, tokens.head? = some first ∧ startsStatement first = true := by
  cases derived with
  | ofAssignment assigned =>
      obtain ⟨name, head⟩ := assigned.head?_assignment
      exact ⟨_, head, rfl⟩
  | evaluate _ head => exact ⟨_, head, rfl⟩
  | choose | loop | declare | giveBack => exact ⟨_, rfl, rfl⟩

theorem Derives.head?_statement {tokens : List TokenKind} {statement : Statement}
    (derived : Derives features tokens (.statement statement)) :
    ∃ first, tokens.head? = some first ∧ startsStatement first = true := by
  cases derived with
  | ofBare bare _ =>
      obtain ⟨first, head, starts⟩ := bare.head?_bare
      exact ⟨first, ExprForm.head?_append_of_head? head _, starts⟩

theorem Derives.length_pos {tokens : List TokenKind} {statement : Statement}
    (derived : Derives features tokens (.statement statement)) : 0 < tokens.length := by
  obtain ⟨first, head, _⟩ := derived.head?_statement
  cases tokens with
  | nil => cases head
  | cons => exact Nat.succ_pos _

end StatementForm

end Scriptlet
