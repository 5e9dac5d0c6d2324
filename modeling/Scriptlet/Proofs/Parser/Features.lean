import Mathlib.Data.List.Chain
import Scriptlet.Program
import Scriptlet.Proofs.Parser.Acceptance
import Scriptlet.Proofs.Token.Features

/-!
Contract: a text that compiles still compiles, to the same tree, under more
features.

Owns:
- without functions, no derived program has a name right in front of an opening
  parenthesis, where a call would start;
- parsers that agree on the feeds of such programs, one lemma for each parser;
- that adding features is conservative.

The parser asks for a feature only at a token that does not exist without it,
with one exception: the parenthesis of a call exists under every feature set.
-/

namespace Scriptlet

/-! ## Names in front of parentheses -/

/-- Whether no name stands right in front of an opening parenthesis. -/
def NoCalls (tokens : List TokenKind) : Prop :=
  tokens.IsChain fun first second =>
    ∀ name, first = .identifier name → second ≠ .symbol .leftParen

theorem noCalls_singleton (kind : TokenKind) : NoCalls [kind] :=
  .singleton kind

theorem NoCalls.cons {kind : TokenKind} {tokens : List TokenKind} (rest : NoCalls tokens)
    (other : ∀ name, kind ≠ .identifier name) : NoCalls (kind :: tokens) :=
  List.IsChain.cons rest fun _ _ name isName => absurd isName (other name)

theorem NoCalls.append {left right : List TokenKind} (first : NoCalls left)
    (second : NoCalls right) (apart : right.head? ≠ some (.symbol .leftParen)) :
    NoCalls (left ++ right) := by
  refine List.IsChain.append first second ?_
  intro last _ head isHead name _ isParen
  subst isParen
  exact apart isHead

/-- Joins what stands on the two sides of a sign. -/
theorem NoCalls.around {left right : List TokenKind} {kind : TokenKind} (first : NoCalls left)
    (second : NoCalls right) (other : ∀ name, kind ≠ .identifier name)
    (apart : kind ≠ .symbol .leftParen) : NoCalls (left ++ kind :: right) :=
  first.append (second.cons other) fun isParen => apart (Option.some.inj isParen)

variable {features more : FeatureSet}

theorem ExprForm.Derives.noCalls {tokens : List TokenKind} {form : ExprForm}
    (derived : Derives features tokens form) (without : .function ∉ features) :
    NoCalls tokens := by
  induction derived with
  | ofOperand _ operand => exact operand
  | ofTighter _ _ tighter => exact tighter
  | binary operator _ _ left right =>
      exact left.around right operator.token_ne_identifier
        (Parser.token_ne_leftParen operator)
  | negation _ under => exact under.cons nofun
  | @sign _ _ operator _ _ under => exact under.cons operator.token_ne_identifier
  | integer value => exact noCalls_singleton _
  | ofPlace _ place => exact place
  | parentheses _ inner =>
      exact (inner.append (noCalls_singleton (.symbol .rightParen)) nofun).cons nofun
  | array _ _ inner =>
      exact (inner.append (noCalls_singleton (.symbol .rightBracket)) nofun).cons nofun
  | name name => exact noCalls_singleton _
  | call _ allowed => exact absurd allowed without
  | index _ _ _ base offset =>
      have closed := offset.append (noCalls_singleton (.symbol .rightBracket)) nofun
      exact base.around closed nofun nofun
  | empty => exact .nil
  | nonempty _ found => exact found
  | one _ first => exact first
  | more _ _ first rest => exact first.around rest nofun nofun

namespace StatementForm

/-- Whether no name stands right in front of an opening parenthesis in some tokens,
nor would if they came after a name. -/
structure Sealed (tokens : List TokenKind) : Prop where
  noCalls : NoCalls tokens
  head : tokens.head? ≠ some (.symbol .leftParen)

theorem sealed_nil : Sealed [] :=
  ⟨.nil, nofun⟩

theorem sealed_cons {kind : TokenKind} {tokens : List TokenKind} (rest : NoCalls tokens)
    (other : ∀ name, kind ≠ .identifier name) (apart : kind ≠ .symbol .leftParen) :
    Sealed (kind :: tokens) :=
  ⟨rest.cons other, fun isParen => apart (Option.some.inj isParen)⟩

theorem Sealed.append {left right : List TokenKind} (first : Sealed left)
    (second : Sealed right) : Sealed (left ++ right) := by
  refine ⟨first.noCalls.append second.noCalls second.head, ?_⟩
  cases left with
  | nil => exact second.head
  | cons => exact first.head

theorem sealed_optionalNewline {tokens : List TokenKind} (gap : OptionalNewline tokens) :
    Sealed tokens := by
  rcases gap with rfl | rfl
  · exact sealed_nil
  · exact sealed_cons .nil nofun nofun

/-- The condition of a loop may start with a parenthesis; it comes after a
semicolon. -/
def SealedAs (tokens : List TokenKind) : StatementForm → Prop
  | .headerCondition _ => NoCalls tokens
  | _ => Sealed tokens

theorem Derives.sealedAs {tokens : List TokenKind} {form : StatementForm}
    (derived : Derives features tokens form) (without : .function ∉ features) :
    form.SealedAs tokens := by
  induction derived with
  | assign name second =>
      have value := second.noCalls without
      exact ⟨(noCalls_singleton (.identifier name)).around value nofun nofun, nofun⟩
  | store first second =>
      obtain ⟨name, head⟩ := first.startsAs
      refine ⟨(first.noCalls without).around (second.noCalls without) nofun nofun, ?_⟩
      rw [ExprForm.head?_append_of_head? head]
      exact nofun
  | noPart | noElseIf | noOtherwise | noStatement => exact sealed_nil
  | somePart _ part => exact part
  | noCondition => exact .nil
  | someCondition found => exact found.noCalls without
  | elseIf _ test _ _ guarded rest =>
      have body := guarded.append rest
      exact sealed_cons ((test.noCalls without).append body.noCalls body.head) nofun nofun
  | someOtherwise _ found => exact sealed_cons found.noCalls nofun nofun
  | ofAssignment _ assigned => exact assigned
  | evaluate evaluated head =>
      refine ⟨evaluated.noCalls without, ?_⟩
      rw [head]
      exact nofun
  | choose _ test _ _ _ guarded rest last =>
      have body := guarded.append (rest.append last)
      exact sealed_cons ((test.noCalls without).append body.noCalls body.head) nofun nofun
  | loop _ _ _ _ _ initial test step body =>
      have repeated := step.append body
      exact sealed_cons (initial.noCalls.around (test.around repeated.noCalls nofun nofun)
        nofun nofun) nofun nofun
  | declare _ _ allowed => exact absurd allowed without
  | giveBack allowed => exact absurd allowed without
  | ofBare _ ends bare => exact bare.append (sealed_optionalNewline ends)
  | nextStatement _ _ first rest => exact first.append rest
  | braces opens _ ends inner =>
      have closing : Sealed (.symbol .rightBrace :: _) :=
        sealed_cons (sealed_optionalNewline ends).noCalls nofun nofun
      exact sealed_cons ((sealed_optionalNewline opens).append
        (inner.append closing)).noCalls nofun nofun

end StatementForm

/-- Without functions, no name of a derived program stands right in front of an
opening parenthesis. -/
theorem Block.DerivedFrom.noCalls {tokens : List TokenKind} {block : Block}
    (derived : block.DerivedFrom features tokens) (without : .function ∉ features) :
    NoCalls tokens := by
  obtain ⟨opening, statementTokens, opens, statements, rfl⟩ := derived
  have sealedStatements : StatementForm.Sealed statementTokens := statements.sealedAs without
  have ending : StatementForm.Sealed [.endOfInput] :=
    StatementForm.sealed_cons .nil nofun nofun
  exact ((StatementForm.sealed_optionalNewline opens).append
    (sealedStatements.append ending)).noCalls

/-! ## Parsers that agree -/

/-- Whether a feed holds what a program that is accepted under a feature set can
hold. -/
structure Feed.Plain (features : FeatureSet) (feed : Feed) : Prop where
  readable : ∀ kind ∈ feed.kinds, kind.Readable features
  apart : .function ∈ features ∨ NoCalls feed.kinds

theorem Feed.Plain.current {feed : Feed} (plain : feed.Plain features) :
    feed.current.kind.Readable features :=
  plain.readable _ List.mem_cons_self

theorem Feed.Plain.later {feed final : Feed} {kind : TokenKind} (plain : feed.Plain features)
    (taken : feed.kinds = kind :: final.kinds) : final.Plain features := by
  obtain ⟨readable, apart⟩ := plain
  rw [taken] at readable apart
  exact ⟨fun kind member => readable kind (List.mem_cons_of_mem _ member),
    apart.imp_right List.IsChain.tail⟩

namespace Parser

section Steps

variable {α β : Type}

/-- Whether two parsers do the same on a feed, and leave a plain one. -/
def AgreeAt (features : FeatureSet) (left right : Parser Feed α) (feed : Feed) : Prop :=
  left feed = right feed ∧
    ∀ ⦃result : α⦄ ⦃final : Feed⦄, left feed = .ok (result, final) → final.Plain features

/-- Whether two parsers do the same on plain feeds, and leave plain ones. -/
def Agree (features : FeatureSet) (left right : Parser Feed α) : Prop :=
  ∀ ⦃feed : Feed⦄, feed.Plain features → AgreeAt features left right feed

theorem AgreeAt.bind {left right : Parser Feed α} {leftNext rightNext : α → Parser Feed β} {feed : Feed}
    (first : AgreeAt features left right feed)
    (second : ∀ value middle, left feed = .ok (value, middle) → middle.Plain features →
      AgreeAt features (leftNext value) (rightNext value) middle) :
    AgreeAt features (left >>= leftNext) (right >>= rightNext) feed := by
  obtain ⟨same, keeps⟩ := first
  constructor
  · change StateT.bind left leftNext feed = StateT.bind right rightNext feed
    unfold StateT.bind
    rw [← same]
    cases outcome : left feed with
    | error failure => rfl
    | ok pair => exact (second pair.1 pair.2 outcome (keeps outcome)).1
  · intro result final success
    obtain ⟨value, middle, parsed, continued⟩ := bind_eq_ok.mp success
    exact (second value middle parsed (keeps parsed)).2 continued

theorem Agree.bind {left right : Parser Feed α} {leftNext rightNext : α → Parser Feed β}
    (first : Agree features left right)
    (second : ∀ value, Agree features (leftNext value) (rightNext value)) :
    Agree features (left >>= leftNext) (right >>= rightNext) :=
  fun _ plain => (first plain).bind fun value _ _ stillPlain => second value stillPlain

theorem agree_pure (value : α) : Agree features (pure value) (pure value) := by
  intro feed plain
  refine ⟨rfl, fun result final success => ?_⟩
  obtain ⟨_, rfl⟩ := pure_eq_ok.mp success
  exact plain

/-- A token in sight is one that a text can hold. -/
theorem agree_peek {left right : TokenKind → Parser Feed α}
    (agree : ∀ kind, kind.Readable features → Agree features (left kind) (right kind)) :
    Agree features (peek >>= left) (peek >>= right) :=
  fun feed plain => agree feed.current.kind plain.current plain

theorem agree_ite {condition other : Prop} [Decidable condition] [Decidable other]
    {leftFirst leftSecond rightFirst rightSecond : Parser Feed α} (same : condition ↔ other)
    (first : Agree features leftFirst rightFirst)
    (second : Agree features leftSecond rightSecond) :
    Agree features (if condition then leftFirst else leftSecond)
      (if other then rightFirst else rightSecond) := by
  by_cases holds : condition
  · rw [if_pos holds, if_pos (same.mp holds)]
    exact first
  · rw [if_neg holds, if_neg fun otherHolds => holds (same.mpr otherHolds)]
    exact second

/-- A feed that is kept for later is plain. -/
theorem agree_mark {left right : TokenSource.Checkpoint Feed → Parser Feed α}
    (agree : ∀ kept : Feed, kept.Plain features → Agree features (left kept) (right kept)) :
    Agree features (mark >>= left) (mark >>= right) :=
  fun feed plain => agree feed plain plain

theorem agree_unmark {left right : Unit → Parser Feed α}
    (agree : Agree features (left ()) (right ())) :
    Agree features (unmark >>= left) (unmark >>= right) :=
  fun _ plain => agree plain

theorem agree_rewind {kept : TokenSource.Checkpoint Feed} (plain : Feed.Plain features kept)
    {left right : Unit → Parser Feed α} (agree : Agree features (left ()) (right ())) :
    Agree features (rewind kept >>= left) (rewind kept >>= right) :=
  fun _ _ => agree plain

/-- A parser that never succeeds agrees with itself. -/
theorem agree_failure {parser : Parser Feed α}
    (fails : ∀ {feed final : Feed} {result : α}, parser feed ≠ .ok (result, final)) :
    Agree features parser parser :=
  fun _ _ => ⟨rfl, fun _ _ success => absurd success fails⟩

theorem agree_tooDeep : Agree features (tooDeep : Parser Feed α) tooDeep :=
  agree_failure tooDeep_ne_ok

theorem agree_unexpected (expected : String) :
    Agree features (unexpected expected : Parser Feed α) (unexpected expected) :=
  agree_failure unexpected_ne_ok

theorem agree_invalidStart : Agree features (invalidStart : Parser Feed α) invalidStart :=
  agree_failure invalidStart_ne_ok

theorem agree_advance : Agree features advance advance :=
  fun _ plain => ⟨rfl, fun _ _ success => plain.later (advance_eq_ok success)⟩

theorem agree_expect (kind : TokenKind) : Agree features (expect kind) (expect kind) :=
  fun _ plain => ⟨rfl, fun _ _ success => plain.later (expect_eq_ok success)⟩

theorem agree_identifier : Agree features identifier identifier :=
  fun _ plain => ⟨rfl, fun _ _ success => plain.later (identifier_eq_ok success)⟩

theorem agree_skipNewline : Agree features skipNewline skipNewline :=
  agree_peek fun _ _ => agree_ite Iff.rfl agree_advance (agree_pure _)

theorem agree_bounded (expr : Expr) : Agree features (bounded expr) (bounded expr) :=
  agree_ite Iff.rfl agree_tooDeep (agree_pure expr)

end Steps

/-- A token that needs a feature is in sight only where the feature was there
already. -/
theorem allowed_iff {kind gated : TokenKind} {feature : Feature} (included : features ⊆ more)
    (readable : kind.Readable features) (gate : gated.Readable features → feature ∈ features) :
    kind = gated ∧ feature ∈ features ↔ kind = gated ∧ feature ∈ more := by
  refine and_congr_right fun isGated => ⟨included feature, fun _ => ?_⟩
  subst isGated
  exact gate readable

/-! ### Expressions -/

section Expressions

variable {left right : Parser Feed Expr} {limit : Nat}

theorem agree_items (inner : Agree features left right) (count : Nat) :
    Agree features (items left count) (items right count) := by
  induction count with
  | zero => exact agree_pure _
  | succ count inductionHypothesis =>
      rw [items, items]
      refine inner.bind fun first => agree_peek fun _ _ => agree_ite Iff.rfl ?_ (agree_pure _)
      exact agree_advance.bind fun _ => inductionHypothesis.bind fun _ => agree_pure _

theorem agree_listUpTo (inner : Agree features left right) (close : Symbol) :
    Agree features (listUpTo ⟨features, limit⟩ close left)
      (listUpTo ⟨more, limit⟩ close right) := by
  refine agree_peek fun _ _ => agree_ite Iff.rfl ?_ ?_
  · exact agree_advance.bind fun _ => agree_pure _
  · refine (agree_items inner limit).bind fun found => ?_
    exact (agree_expect _).bind fun _ => agree_pure _

theorem agree_indexes (included : features ⊆ more) (inner : Agree features left right)
    (count : Nat) (base : Expr) :
    Agree features (indexes ⟨features, limit⟩ left count base)
      (indexes ⟨more, limit⟩ right count base) := by
  induction count generalizing base with
  | zero => exact agree_pure _
  | succ count inductionHypothesis =>
      rw [indexes, indexes]
      refine agree_peek fun kind readable =>
        agree_ite (allowed_iff included readable id) ?_ (agree_pure _)
      refine agree_advance.bind fun _ => inner.bind fun offset => ?_
      refine (agree_expect _).bind fun _ => (agree_bounded _).bind fun indexed => ?_
      exact inductionHypothesis indexed

/-- After a name, a parenthesis opens a call under the larger feature set only if it
does so under the smaller one. -/
theorem agree_place (included : features ⊆ more) (inner : Agree features left right) :
    Agree features (place ⟨features, limit⟩ left) (place ⟨more, limit⟩ right) := by
  intro feed plain
  refine (agree_identifier plain).bind fun name middle named stillPlain => ?_
  have sameCall : middle.current.kind = .symbol .leftParen ∧ .function ∈ features ↔
      middle.current.kind = .symbol .leftParen ∧ .function ∈ more := by
    refine and_congr_right fun opens => ⟨included _, fun _ => ?_⟩
    rcases plain.apart with allowed | noCalls
    · exact allowed
    · rw [identifier_eq_ok named] at noCalls
      exact absurd opens (noCalls.rel_head? rfl name rfl)
  refine agree_ite sameCall ?_ (agree_indexes included inner _ _) stillPlain
  refine agree_advance.bind fun _ => (agree_listUpTo inner .rightParen).bind fun arguments => ?_
  exact (agree_bounded _).bind fun call => agree_indexes included inner _ call

theorem agree_primary (included : features ⊆ more) (inner : Agree features left right) :
    Agree features (primary ⟨features, limit⟩ left) (primary ⟨more, limit⟩ right) := by
  refine agree_peek fun kind readable => ?_
  cases kind with
  | integer value => exact agree_advance.bind fun _ => agree_pure _
  | identifier name => exact agree_place included inner
  | symbol sign =>
      cases sign with
      | leftParen =>
          refine agree_advance.bind fun _ => inner.bind fun expr => ?_
          exact (agree_expect _).bind fun _ => agree_pure _
      | leftBracket =>
          refine agree_ite ⟨included .array, fun _ => readable⟩ ?_ (agree_unexpected _)
          refine agree_advance.bind fun _ => (agree_listUpTo inner _).bind fun found => ?_
          exact agree_bounded _
      | _ => exact agree_unexpected _
  | _ => exact agree_unexpected _

theorem agree_signed {leftUnder rightUnder : Parser Feed Expr}
    (under : Agree features leftUnder rightUnder) (plain : Agree features left right) :
    Agree features (signed leftUnder left) (signed rightUnder right) := by
  refine agree_peek fun kind _ => ?_
  cases UnaryOperator.ofSign? kind with
  | some operator => exact agree_advance.bind fun _ => under.bind fun _ => agree_bounded _
  | none => exact plain

theorem agree_chain {least : Nat} {leftAt rightAt : Nat → Parser Feed Expr}
    (inner : ∀ level, Agree features (leftAt level) (rightAt level)) (count : Nat) (first : Expr) :
    Agree features (chain least leftAt count first) (chain least rightAt count first) := by
  induction count generalizing first with
  | zero => exact agree_pure _
  | succ count inductionHypothesis =>
      rw [chain, chain]
      refine agree_peek fun kind _ => ?_
      cases BinaryOperator.ofToken? kind with
      | none => exact agree_pure _
      | some operator =>
          refine agree_ite Iff.rfl (agree_pure _) ?_
          refine agree_advance.bind fun _ => (inner _).bind fun second => ?_
          exact (agree_bounded _).bind fun joined => inductionHypothesis joined

theorem agree_climb {leftAt rightAt : Nat → Parser Feed Expr} (first : Agree features left right)
    (inner : ∀ level, Agree features (leftAt level) (rightAt level)) (least : Nat) :
    Agree features (climb ⟨features, limit⟩ left leftAt least)
      (climb ⟨more, limit⟩ right rightAt least) := by
  refine agree_peek fun _ _ => agree_ite Iff.rfl ?_ ?_
  · refine agree_advance.bind fun _ => (inner _).bind fun negated => ?_
    exact (agree_bounded _).bind fun negation => agree_chain inner _ negation
  · exact first.bind fun expr => agree_chain inner _ expr

end Expressions

theorem agree_expressionAt_operand (included : features ⊆ more) (limit room : Nat) :
    (∀ least, Agree features (expressionAt ⟨features, limit⟩ room least)
        (expressionAt ⟨more, limit⟩ room least)) ∧
      Agree features (operand ⟨features, limit⟩ room) (operand ⟨more, limit⟩ room) := by
  induction room with
  | zero =>
      exact ⟨fun _ => agree_tooDeep,
        agree_signed agree_tooDeep (agree_primary included agree_tooDeep)⟩
  | succ room inductionHypothesis =>
      obtain ⟨inner, operands⟩ := inductionHypothesis
      have expressions : ∀ least, Agree features
          (expressionAt ⟨features, limit⟩ (room + 1) least)
          (expressionAt ⟨more, limit⟩ (room + 1) least) :=
        fun least => agree_climb operands inner least
      exact ⟨expressions, agree_signed operands (agree_primary included (expressions 0))⟩

theorem agree_expression (included : features ⊆ more) (limit room : Nat) :
    Agree features (expression ⟨features, limit⟩ room) (expression ⟨more, limit⟩ room) :=
  (agree_expressionAt_operand included limit room).1 0

/-! ### Statements -/

section Statements

variable {left right : Parser Feed Expr} {leftBlock rightBlock : Parser Feed Block} {limit : Nat}

theorem agree_assignment (target value : Expr) :
    Agree features (assignment target value) (assignment target value) := by
  cases target with
  | name | index => exact agree_pure _
  | _ => exact agree_failure nofun

theorem agree_parameterNames (count : Nat) :
    Agree features (parameterNames count) (parameterNames count) := by
  induction count with
  | zero => exact agree_pure _
  | succ count inductionHypothesis =>
      rw [parameterNames]
      refine agree_identifier.bind fun first => agree_peek fun _ _ => ?_
      refine agree_ite Iff.rfl ?_ (agree_pure _)
      exact agree_advance.bind fun _ => inductionHypothesis.bind fun _ => agree_pure _

variable (included : features ⊆ more) (inner : Agree features left right)
  (nested : Agree features leftBlock rightBlock)

include included inner in
theorem agree_assignmentOrExpression :
    Agree features (assignmentOrExpression ⟨features, limit⟩ left)
      (assignmentOrExpression ⟨more, limit⟩ right) := by
  refine agree_mark fun checkpoint plain => (agree_place included inner).bind fun target => ?_
  refine agree_peek fun _ _ => agree_ite Iff.rfl (agree_unmark ?_) (agree_rewind plain ?_)
  · exact agree_advance.bind fun _ => inner.bind fun value => agree_assignment target value
  · exact inner.bind fun _ => agree_pure _

include included inner in
theorem agree_headerPart (absent : Symbol) :
    Agree features (headerPart ⟨features, limit⟩ left absent)
      (headerPart ⟨more, limit⟩ right absent) := by
  refine agree_peek fun _ _ => agree_ite Iff.rfl (agree_pure _) ?_
  refine (agree_place included inner).bind fun target => (agree_expect _).bind fun _ => ?_
  exact inner.bind fun value => agree_assignment target value

include inner in
theorem agree_headerCondition :
    Agree features (headerCondition left) (headerCondition right) := by
  refine agree_peek fun _ _ => agree_ite Iff.rfl (agree_pure _) ?_
  exact inner.bind fun _ => agree_pure _

include inner nested in
theorem agree_branch : Agree features (branch left leftBlock) (branch right rightBlock) :=
  inner.bind fun _ => nested.bind fun _ => agree_pure _

include included inner nested in
theorem agree_elseIfBranches (count : Nat) :
    Agree features (elseIfBranches ⟨features, limit⟩ left leftBlock count)
      (elseIfBranches ⟨more, limit⟩ right rightBlock count) := by
  induction count with
  | zero => exact agree_pure _
  | succ count inductionHypothesis =>
      rw [elseIfBranches, elseIfBranches]
      refine agree_peek fun kind readable =>
        agree_ite (allowed_iff included readable id) ?_ (agree_pure _)
      refine agree_advance.bind fun _ => (agree_branch inner nested).bind fun first => ?_
      exact inductionHypothesis.bind fun _ => agree_pure _

include included inner nested in
theorem agree_choice :
    Agree features (choice ⟨features, limit⟩ left leftBlock)
      (choice ⟨more, limit⟩ right rightBlock) := by
  refine (agree_expect _).bind fun _ => (agree_branch inner nested).bind fun first => ?_
  refine (agree_elseIfBranches included inner nested _).bind fun rest => ?_
  refine agree_peek fun _ _ => agree_ite Iff.rfl ?_ (agree_pure _)
  exact agree_advance.bind fun _ => nested.bind fun _ => agree_pure _

include included inner nested in
theorem agree_loop :
    Agree features (loop ⟨features, limit⟩ left leftBlock)
      (loop ⟨more, limit⟩ right rightBlock) := by
  refine (agree_expect _).bind fun _ => (agree_headerPart included inner _).bind fun initial => ?_
  refine (agree_expect _).bind fun _ => (agree_headerCondition inner).bind fun condition => ?_
  refine (agree_expect _).bind fun _ => (agree_headerPart included inner _).bind fun step => ?_
  exact nested.bind fun _ => agree_pure _

include nested in
theorem agree_declaration :
    Agree features (declaration ⟨features, limit⟩ leftBlock)
      (declaration ⟨more, limit⟩ rightBlock) := by
  have parameters : Agree features (parameters ⟨features, limit⟩) (parameters ⟨more, limit⟩) :=
    agree_peek fun _ _ => agree_ite Iff.rfl (agree_pure _) (agree_parameterNames limit)
  refine (agree_expect _).bind fun _ => agree_identifier.bind fun name => ?_
  refine (agree_expect _).bind fun _ => parameters.bind fun names => ?_
  exact (agree_expect _).bind fun _ => nested.bind fun _ => agree_pure _

include inner in
theorem agree_giveBack : Agree features (giveBack left) (giveBack right) :=
  (agree_expect _).bind fun _ => inner.bind fun _ => agree_pure _

include included inner nested in
theorem agree_bareStatement :
    Agree features (bareStatement ⟨features, limit⟩ left leftBlock)
      (bareStatement ⟨more, limit⟩ right rightBlock) := by
  refine agree_peek fun kind readable => ?_
  cases kind with
  | identifier name => exact agree_assignmentOrExpression included inner
  | keyword word =>
      -- The keyword of a statement is one only because its feature is there.
      have sameGate {feature : Feature} (gate : feature ∈ features) :
          feature ∈ features ↔ feature ∈ more := ⟨included feature, fun _ => gate⟩
      cases word with
      | ifThen =>
          exact agree_ite (sameGate readable) (agree_choice included inner nested)
            agree_invalidStart
      | forLoop =>
          exact agree_ite (sameGate readable) (agree_loop included inner nested)
            agree_invalidStart
      | function =>
          exact agree_ite (sameGate readable) (agree_declaration nested) agree_invalidStart
      | returns =>
          exact agree_ite (sameGate readable) (agree_giveBack inner) agree_invalidStart
      | _ => exact agree_invalidStart
  | _ => exact agree_invalidStart

include included inner nested in
theorem agree_statement (limit : Nat) :
    Agree features (statement ⟨features, limit⟩ left leftBlock)
      (statement ⟨more, limit⟩ right rightBlock) :=
  (agree_bareStatement included inner nested).bind fun _ =>
    agree_skipNewline.bind fun _ => agree_pure _

end Statements

section Sequences

variable {left right : Parser Feed Statement}

theorem agree_statementsInBlock (inner : Agree features left right) (count : Nat) :
    Agree features (statementsInBlock left count) (statementsInBlock right count) := by
  induction count with
  | zero => exact agree_pure _
  | succ count inductionHypothesis =>
      rw [statementsInBlock, statementsInBlock]
      refine agree_peek fun kind _ => ?_
      split
      · exact agree_pure _
      · exact agree_unexpected _
      · exact inner.bind fun _ => inductionHypothesis.bind fun _ => agree_pure _

theorem agree_statementsToEnd (inner : Agree features left right) (count : Nat) :
    Agree features (statementsToEnd left count) (statementsToEnd right count) := by
  induction count with
  | zero => exact agree_pure _
  | succ count inductionHypothesis =>
      rw [statementsToEnd, statementsToEnd]
      refine agree_peek fun _ _ => agree_ite Iff.rfl (agree_pure _) ?_
      exact inner.bind fun _ => inductionHypothesis.bind fun _ => agree_pure _

end Sequences

theorem agree_block (included : features ⊆ more) (limit room : Nat) :
    Agree features (block ⟨features, limit⟩ room) (block ⟨more, limit⟩ room) := by
  induction room with
  | zero => exact agree_tooDeep
  | succ room inductionHypothesis =>
      have inner := agree_statement included (agree_expression included limit room)
        inductionHypothesis limit
      rw [block, block]
      refine (agree_expect _).bind fun _ => agree_skipNewline.bind fun _ => ?_
      refine (agree_statementsInBlock inner limit).bind fun statements => ?_
      exact agree_advance.bind fun _ => agree_skipNewline.bind fun _ => agree_pure _

theorem agree_program (included : features ⊆ more) (limit : Nat) :
    Agree features (program ⟨features, limit⟩) (program ⟨more, limit⟩) := by
  have inner := agree_statement included (agree_expression included limit maxNesting)
    (agree_block included limit maxNesting) limit
  exact agree_skipNewline.bind fun _ => agree_statementsToEnd inner limit

end Parser

/-! ## Conservativity -/

variable {source : String}

/-- The feed of an accepted text is plain. -/
theorem plain_of_parse {body : Block} (parsed : parse features source = .ok body) {feed : Feed}
    (kinds : feed.kinds = (scanAll features (Cursor.start source)).kinds) :
    feed.Plain features := by
  obtain ⟨derived, _⟩ := derivedFrom_of_parse parsed
  refine ⟨fun kind member => ?_, ?_⟩
  · rw [kinds] at member
    exact readable_of_mem_scanAll member
  · by_cases allowed : .function ∈ features
    · exact .inl allowed
    · right
      rw [kinds]
      exact derived.noCalls allowed

/-- What is accepted is accepted under more features, with the same tree, if no name
in it is spelled like a keyword of an added feature. -/
theorem parse_of_subset {body : Block} (included : features ⊆ more)
    (parsed : parse features source = .ok body)
    (apart : ∀ keyword ∈ Keyword.gatedBy (more \ features),
      .identifier keyword.spelling ∉ (scanAll features (Cursor.start source)).kinds) :
    parse more source = .ok body := by
  have finished := (derivedFrom_of_parse parsed).2
  have sameTokens := scanAll_of_subset included finished apart
  cases tokens : (scanAll features (Cursor.start source)).tokens with
  | nil => simp [parse_eq_parseTokens, parseTokens, tokens] at parsed
  | cons current later =>
      have plain : (Feed.mk current later
          ((scanAll features (Cursor.start source)).failure.getD .exhausted)).Plain features :=
        plain_of_parse parsed (by rw [TokenRun.kinds, tokens]; rfl)
      have agree := Parser.agree_program included (source.length + 1) plain
      rw [parse_eq_parseTokens, parseTokens] at parsed ⊢
      simp only [sameTokens, tokens] at parsed ⊢
      rw [StateT.run'] at parsed ⊢
      rw [← agree.1]
      exact parsed

/-- Adding features is conservative: a text that compiles, and has no name that is
spelled like a keyword of an added feature, compiles to the same tree. -/
theorem compile_of_more_features {program : Program} (included : features ⊆ more)
    (compiled : Program.compile features source = .ok program)
    (apart : ∀ keyword ∈ Keyword.gatedBy (more \ features),
      .identifier keyword.spelling ∉ (scanAll features (Cursor.start source)).kinds) :
    Program.compile more source = .ok { program with features := more } := by
  unfold Program.compile at compiled ⊢
  cases parsed : parse features source with
  | error failure => simp [parsed, Except.map] at compiled
  | ok body =>
      rw [parsed] at compiled
      cases compiled
      rw [parse_of_subset included parsed apart]
      rfl

/-- With functions added, the names of other features' keywords stay names, and the
parenthesis stays apart from the name after the product. -/
theorem compile_of_more_features_keywordsAsNames :
    Program.compile FeatureSet.none "if=a*(b-1)for=if" =
      .ok ⟨FeatureSet.none, [.assign "if" (.binary .multiply (.name "a")
        (.binary .subtract (.name "b") (.integer 1))), .assign "for" (.name "if")]⟩ ∧
    Program.compile {.function} "if=a*(b-1)for=if" =
      .ok ⟨{.function}, [.assign "if" (.binary .multiply (.name "a")
        (.binary .subtract (.name "b") (.integer 1))), .assign "for" (.name "if")]⟩ := by
  have compiled : Program.compile FeatureSet.none "if=a*(b-1)for=if" =
      .ok ⟨FeatureSet.none, [.assign "if" (.binary .multiply (.name "a")
        (.binary .subtract (.name "b") (.integer 1))), .assign "for" (.name "if")]⟩ := by
    decide +kernel
  exact ⟨compiled, compile_of_more_features (by decide) compiled (by decide +kernel)⟩

end Scriptlet
