import Scriptlet.Parse.Program

/-!
Contract: parsers do the same on sources that go on in step.

Owns:
- what two kinds of sources have to satisfy, said of their own operations only;
- parsers that do the same on related sources, closed under putting parsers
  together, one lemma for each parser;
- a whole program is parsed alike from related sources.

Only the parser of assignments sets a mark, and the expressions it parses before
it drops the mark set none.  So expressions are compared under any relation that
sources keep while they go on, and statements under one that they come back to.
-/

namespace Scriptlet

/-- Two outcomes are the same failure, or successes that are related. -/
inductive SameOutcome {ε α β : Type} (related : α → β → Prop) : Except ε α → Except ε β → Prop
  | error (failure : ε) : SameOutcome related (.error failure) (.error failure)
  | ok {left : α} {right : β} (holds : related left right) :
      SameOutcome related (.ok left) (.ok right)

theorem SameOutcome.weaken {ε α β : Type} {related others : α → β → Prop} {left : Except ε α}
    {right : Except ε β} (same : SameOutcome related left right)
    (implies : ∀ first second, related first second → others first second) :
    SameOutcome others left right := by
  cases same with
  | error failure => exact .error failure
  | ok holds => exact .ok (implies _ _ holds)

section

variable {σ τ : Type} [TokenSource σ] [TokenSource τ]

/-- A relation under which sources have the same token in sight, and which they keep
while they go on. -/
structure InStep (related : σ → τ → Prop) : Prop where
  current {left : σ} {right : τ} (holds : related left right) :
    TokenSource.current left = TokenSource.current right
  next {left : σ} {right : τ} (holds : related left right) :
    SameOutcome related (TokenSource.next left) (TokenSource.next right)

/-- A relation that sources keep while they go on, with the one that holds instead
between setting a mark and dropping it or going back. -/
structure MarksInStep (related : σ → τ → Prop)
    (marked : TokenSource.Checkpoint σ → TokenSource.Checkpoint τ → σ → τ → Prop) : Prop where
  unmarked : InStep related
  whileMarked (kept : TokenSource.Checkpoint σ) (other : TokenSource.Checkpoint τ) :
    InStep (marked kept other)
  mark {left : σ} {right : τ} (holds : related left right) :
    marked (TokenSource.mark left).1 (TokenSource.mark right).1 (TokenSource.mark left).2
      (TokenSource.mark right).2
  unmark {kept : TokenSource.Checkpoint σ} {other : TokenSource.Checkpoint τ} {left : σ}
    {right : τ} (holds : marked kept other left right) :
    related (TokenSource.unmark left) (TokenSource.unmark right)
  rewind {kept : TokenSource.Checkpoint σ} {other : TokenSource.Checkpoint τ} {left : σ}
    {right : τ} (holds : marked kept other left right) :
    related (TokenSource.rewind kept left) (TokenSource.rewind other right)

end

namespace Parser

variable {σ τ α β : Type}

/-- Whether two parsers give the same on sources that are related before, and leave
them related after. -/
def SameOn (before after : σ → τ → Prop) (left : Parser σ α) (right : Parser τ α) : Prop :=
  ∀ ⦃first : σ⦄ ⦃second : τ⦄, before first second →
    SameOutcome (fun done other => done.1 = other.1 ∧ after done.2 other.2)
      (left first) (right second)

section Steps

variable {before middle after related : σ → τ → Prop}

theorem SameOn.bind {left : Parser σ α} {right : Parser τ α} {leftNext : α → Parser σ β}
    {rightNext : α → Parser τ β} (starts : SameOn before middle left right)
    (goesOn : ∀ value, SameOn middle after (leftNext value) (rightNext value)) :
    SameOn before after (left >>= leftNext) (right >>= rightNext) := by
  intro first second holds
  change SameOutcome _ (StateT.bind left leftNext first) (StateT.bind right rightNext second)
  unfold StateT.bind
  have same := starts holds
  generalize left first = leftOutcome at same ⊢
  generalize right second = rightOutcome at same ⊢
  cases same with
  | error failure => exact .error failure
  | @ok done other holds =>
      obtain ⟨value, first⟩ := done
      obtain ⟨_, second⟩ := other
      obtain ⟨rfl, holds⟩ := holds
      exact goesOn value holds

theorem same_pure (value : α) : SameOn related related (pure value) (pure value) :=
  fun _ _ holds => .ok ⟨rfl, holds⟩

theorem same_ite {condition : Prop} [Decidable condition] {leftFirst leftSecond : Parser σ α}
    {rightFirst rightSecond : Parser τ α} (first : SameOn before after leftFirst rightFirst)
    (second : SameOn before after leftSecond rightSecond) :
    SameOn before after (if condition then leftFirst else leftSecond)
      (if condition then rightFirst else rightSecond) := by
  split
  · exact first
  · exact second

section

variable {source : σ}

theorem get_bind_at (next : σ → Parser σ Unit) : (get >>= next) source = next source source :=
  rfl

variable [TokenSource σ]

/-- A source goes on where it can. -/
theorem advance_of_ok {later : σ} (goesOn : TokenSource.next source = .ok later) :
    advance source = .ok ((), later) := by
  rw [advance, get_bind_at, goesOn]
  rfl

/-- Where a source cannot go on, its failure is told. -/
theorem advance_of_error {failure : LexError} (stops : TokenSource.next source = .error failure) :
    advance source = .error (.lexical failure) := by
  rw [advance, get_bind_at, stops]
  rfl

end

variable [TokenSource σ] [TokenSource τ] (steps : InStep related)

include steps

theorem same_sight {left : Token → Parser σ α} {right : Token → Parser τ α}
    (same : ∀ token, SameOn related after (left token) (right token)) :
    SameOn related after (sight >>= left) (sight >>= right) := by
  intro first second holds
  change SameOutcome _ (left (TokenSource.current first) first)
    (right (TokenSource.current second) second)
  rw [steps.current holds]
  exact same _ holds

theorem same_peek {left : TokenKind → Parser σ α} {right : TokenKind → Parser τ α}
    (same : ∀ kind, SameOn related after (left kind) (right kind)) :
    SameOn related after (peek >>= left) (peek >>= right) :=
  same_sight steps fun token => same token.kind

theorem same_advance : SameOn related related (advance : Parser σ Unit) advance := by
  intro first second holds
  have same := steps.next holds
  generalize leftNext : TokenSource.next first = leftOutcome at same
  generalize rightNext : TokenSource.next second = rightOutcome at same
  cases same with
  | error failure =>
      rw [advance_of_error leftNext, advance_of_error rightNext]
      exact .error (ParseError.lexical failure)
  | ok holds =>
      rw [advance_of_ok leftNext, advance_of_ok rightNext]
      exact .ok ⟨rfl, holds⟩

theorem same_unexpected (expected : String) :
    SameOn related related (unexpected expected : Parser σ α) (unexpected expected) :=
  same_sight steps fun _ _ _ _ => .error _

theorem same_tooDeep : SameOn related related (tooDeep : Parser σ α) tooDeep :=
  same_sight steps fun _ _ _ _ => .error _

theorem same_invalidStart : SameOn related related (invalidStart : Parser σ α) invalidStart :=
  same_sight steps fun _ _ _ _ => .error _

/-- Passes over a token of a kind if one is in sight. -/
theorem same_passIf {condition : TokenKind → Prop} [DecidablePred condition]
    {leftFirst leftSecond : Parser σ α} {rightFirst rightSecond : Parser τ α}
    (first : SameOn related after leftFirst rightFirst)
    (second : SameOn related after leftSecond rightSecond) :
    SameOn related after
      (peek >>= fun kind => if condition kind then advance >>= fun _ => leftFirst else leftSecond)
      (peek >>= fun kind =>
        if condition kind then advance >>= fun _ => rightFirst else rightSecond) :=
  same_peek steps fun _ => same_ite ((same_advance steps).bind fun _ => first) second

theorem same_expect (kind : TokenKind) :
    SameOn related related (expect kind : Parser σ Unit) (expect kind) :=
  same_peek steps fun _ => same_ite (same_advance steps) (same_unexpected steps _)

theorem same_identifier : SameOn related related (identifier : Parser σ String) identifier := by
  refine same_peek steps fun kind => ?_
  cases kind with
  | identifier name => exact (same_advance steps).bind fun _ => same_pure name
  | _ => exact same_unexpected steps _

theorem same_skipNewline : SameOn related related (skipNewline : Parser σ Unit) skipNewline :=
  same_peek steps fun _ => same_ite (same_advance steps) (same_pure _)

theorem same_bounded (expr : Expr) :
    SameOn related related (bounded expr : Parser σ Expr) (bounded expr) :=
  same_ite (same_tooDeep steps) (same_pure expr)

end Steps

variable [TokenSource σ] [TokenSource τ]

section Marks

variable {related after : σ → τ → Prop}
  {marked : TokenSource.Checkpoint σ → TokenSource.Checkpoint τ → σ → τ → Prop}
  (marks : MarksInStep related marked)

include marks

theorem same_mark {left : TokenSource.Checkpoint σ → Parser σ α}
    {right : TokenSource.Checkpoint τ → Parser τ α}
    (same : ∀ kept other, SameOn (marked kept other) after (left kept) (right other)) :
    SameOn related after (mark >>= left) (mark >>= right) :=
  fun _ _ holds => same _ _ (marks.mark holds)

variable {kept : TokenSource.Checkpoint σ} {other : TokenSource.Checkpoint τ}
  {left : Unit → Parser σ α} {right : Unit → Parser τ α}

theorem same_unmark (same : SameOn related after (left ()) (right ())) :
    SameOn (marked kept other) after (unmark >>= left) (unmark >>= right) :=
  fun _ _ holds => same (marks.unmark holds)

theorem same_rewind (same : SameOn related after (left ()) (right ())) :
    SameOn (marked kept other) after (rewind kept >>= left) (rewind other >>= right) :=
  fun _ _ holds => same (marks.rewind holds)

end Marks

/-! ## Expressions -/

section Expressions

variable {related : σ → τ → Prop} (steps : InStep related) {grammar : Grammar}
  {left : Parser σ Expr} {right : Parser τ Expr} (inner : SameOn related related left right)
  {leftAt : Nat → Parser σ Expr} {rightAt : Nat → Parser τ Expr}
  (innerAt : ∀ level, SameOn related related (leftAt level) (rightAt level))

include steps inner

theorem same_items (count : Nat) :
    SameOn related related (items left count) (items right count) := by
  induction count with
  | zero => exact same_pure _
  | succ count inductionHypothesis =>
      refine inner.bind fun first => same_passIf steps ?_ (same_pure _)
      exact inductionHypothesis.bind fun rest => same_pure _

theorem same_listUpTo (close : Symbol) :
    SameOn related related (listUpTo grammar close left) (listUpTo grammar close right) := by
  refine same_passIf steps (same_pure _) ?_
  refine (same_items steps inner _).bind fun found => ?_
  exact (same_expect steps _).bind fun _ => same_pure _

theorem same_indexes (count : Nat) (base : Expr) :
    SameOn related related (indexes grammar left count base) (indexes grammar right count base) := by
  induction count generalizing base with
  | zero => exact same_pure _
  | succ count inductionHypothesis =>
      refine same_passIf steps ?_ (same_pure _)
      refine inner.bind fun offset => (same_expect steps _).bind fun _ => ?_
      exact (same_bounded steps _).bind fun indexed => inductionHypothesis indexed

theorem same_place : SameOn related related (place grammar left) (place grammar right) := by
  refine (same_identifier steps).bind fun name => same_passIf steps ?_ ?_
  · refine (same_listUpTo steps inner _).bind fun arguments => ?_
    exact (same_bounded steps _).bind fun call => same_indexes steps inner _ call
  · exact same_indexes steps inner _ (.name name)

theorem same_primary : SameOn related related (primary grammar left) (primary grammar right) := by
  refine same_peek steps fun kind => ?_
  cases kind with
  | integer value => exact (same_advance steps).bind fun _ => same_pure _
  | identifier name => exact same_place steps inner
  | symbol sign =>
      cases sign with
      | leftParen =>
          refine (same_advance steps).bind fun _ => inner.bind fun expr => ?_
          exact (same_expect steps _).bind fun _ => same_pure _
      | leftBracket =>
          refine same_ite ((same_advance steps).bind fun _ => ?_) (same_unexpected steps _)
          exact (same_listUpTo steps inner _).bind fun found => same_bounded steps _
      | _ => exact same_unexpected steps _
  | _ => exact same_unexpected steps _

omit inner

theorem same_signed {leftUnder : Parser σ Expr} {rightUnder : Parser τ Expr}
    (under : SameOn related related leftUnder rightUnder)
    (plain : SameOn related related left right) :
    SameOn related related (signed leftUnder left) (signed rightUnder right) := by
  refine same_peek steps fun kind => ?_
  split
  · exact (same_advance steps).bind fun _ => under.bind fun operand => same_bounded steps _
  · exact plain

include innerAt

theorem same_chain (least count : Nat) (first : Expr) :
    SameOn related related (chain least leftAt count first) (chain least rightAt count first) := by
  induction count generalizing first with
  | zero => exact same_pure _
  | succ count inductionHypothesis =>
      refine same_peek steps fun kind => ?_
      split
      · refine same_ite (same_pure _) ((same_advance steps).bind fun _ => ?_)
        refine (innerAt _).bind fun operand => (same_bounded steps _).bind fun joined => ?_
        exact inductionHypothesis joined
      · exact same_pure _

include inner in
theorem same_climb (least : Nat) :
    SameOn related related (climb grammar left leftAt least)
      (climb grammar right rightAt least) := by
  refine same_passIf steps ?_ ?_
  · refine (innerAt _).bind fun negated => (same_bounded steps _).bind fun first => ?_
    exact same_chain steps innerAt least _ first
  · exact inner.bind fun first => same_chain steps innerAt least _ first

end Expressions

section

variable {related : σ → τ → Prop} (steps : InStep related)

include steps

theorem same_expressionAt_operand (grammar : Grammar) (room : Nat) :
    (∀ least, SameOn related related (expressionAt grammar room least : Parser σ Expr)
      (expressionAt grammar room least)) ∧
    SameOn related related (operand grammar room : Parser σ Expr) (operand grammar room) := by
  induction room with
  | zero =>
      have deep : SameOn related related (tooDeep : Parser σ Expr) tooDeep := same_tooDeep steps
      exact ⟨fun _ => deep, same_signed steps deep (same_primary steps deep)⟩
  | succ room inductionHypothesis =>
      obtain ⟨innerAt, inner⟩ := inductionHypothesis
      have expressions (least : Nat) :
          SameOn related related (expressionAt grammar (room + 1) least : Parser σ Expr)
            (expressionAt grammar (room + 1) least) :=
        same_climb steps inner innerAt least
      exact ⟨expressions, same_signed steps inner (same_primary steps (expressions 0))⟩

theorem same_expression (grammar : Grammar) (room : Nat) :
    SameOn related related (expression grammar room : Parser σ Expr) (expression grammar room) :=
  (same_expressionAt_operand steps grammar room).1 0

end

/-! ## Statements -/

section Statements

variable {related : σ → τ → Prop}
  {marked : TokenSource.Checkpoint σ → TokenSource.Checkpoint τ → σ → τ → Prop}
  (marks : MarksInStep related marked) {grammar : Grammar} {left : Parser σ Expr}
  {right : Parser τ Expr}
  (inner : ∀ {others : σ → τ → Prop}, InStep others → SameOn others others left right)
  {leftBlock : Parser σ Block} {rightBlock : Parser τ Block}
  (nested : SameOn related related leftBlock rightBlock)

omit [TokenSource σ] [TokenSource τ] in
theorem same_assignment (target value : Expr) :
    SameOn related related (assignment target value) (assignment target value) := by
  unfold assignment
  split
  · exact same_pure _
  · exact same_pure _
  · exact fun _ _ _ => .error _

include marks inner in
/-- The place is parsed while the mark is set, under the relation for that. -/
theorem same_assignmentOrExpression :
    SameOn related related (assignmentOrExpression grammar left)
      (assignmentOrExpression grammar right) := by
  refine same_mark marks fun kept other => ?_
  have steps := marks.whileMarked kept other
  refine (same_place steps (inner steps)).bind fun target => same_peek steps fun kind => ?_
  refine same_ite (same_unmark marks ?_) (same_rewind marks ?_)
  · refine (same_advance marks.unmarked).bind fun _ => ?_
    exact (inner marks.unmarked).bind fun value => same_assignment target value
  · exact (inner marks.unmarked).bind fun expr => same_pure _

include marks inner in
theorem same_assignmentOnly :
    SameOn related related (assignmentOnly grammar left) (assignmentOnly grammar right) := by
  have steps := marks.unmarked
  refine (same_place steps (inner steps)).bind fun target => (same_expect steps _).bind fun _ => ?_
  exact (inner steps).bind fun value => same_assignment target value

include marks inner nested in
theorem same_branch :
    SameOn related related (branch left leftBlock) (branch right rightBlock) :=
  (inner marks.unmarked).bind fun _ => nested.bind fun _ => same_pure _

include marks inner nested in
theorem same_elseIfBranches (count : Nat) :
    SameOn related related (elseIfBranches grammar left leftBlock count)
      (elseIfBranches grammar right rightBlock count) := by
  induction count with
  | zero => exact same_pure _
  | succ count inductionHypothesis =>
      refine same_passIf marks.unmarked ?_ (same_pure _)
      exact (same_branch marks inner nested).bind fun first =>
        inductionHypothesis.bind fun rest => same_pure _

include marks inner nested in
theorem same_choice :
    SameOn related related (choice grammar left leftBlock) (choice grammar right rightBlock) := by
  refine (same_expect marks.unmarked _).bind fun _ => ?_
  refine (same_branch marks inner nested).bind fun first => ?_
  refine (same_elseIfBranches marks inner nested _).bind fun rest => ?_
  exact same_passIf marks.unmarked (nested.bind fun otherwise => same_pure _) (same_pure _)

include marks inner in
theorem same_headerPart (absent : Symbol) :
    SameOn related related (headerPart grammar left absent) (headerPart grammar right absent) :=
  same_peek marks.unmarked fun _ => same_ite (same_pure _) (same_assignmentOnly marks inner)

include marks inner in
theorem same_headerCondition :
    SameOn related related (headerCondition left) (headerCondition right) :=
  same_peek marks.unmarked fun _ =>
    same_ite (same_pure _) ((inner marks.unmarked).bind fun _ => same_pure _)

include marks inner nested in
theorem same_loop :
    SameOn related related (loop grammar left leftBlock) (loop grammar right rightBlock) := by
  have steps := marks.unmarked
  refine (same_expect steps _).bind fun _ => (same_headerPart marks inner _).bind fun initial => ?_
  refine (same_expect steps _).bind fun _ => (same_headerCondition marks inner).bind fun _ => ?_
  refine (same_expect steps _).bind fun _ => (same_headerPart marks inner _).bind fun step => ?_
  exact nested.bind fun body => same_pure _

include marks in
theorem same_parameterNames (count : Nat) :
    SameOn related related (parameterNames count : Parser σ (List String))
      (parameterNames count) := by
  induction count with
  | zero => exact same_pure _
  | succ count inductionHypothesis =>
      refine (same_identifier marks.unmarked).bind fun first => ?_
      refine same_passIf marks.unmarked ?_ (same_pure _)
      exact inductionHypothesis.bind fun rest => same_pure _

include marks nested in
theorem same_declaration :
    SameOn related related (declaration grammar leftBlock) (declaration grammar rightBlock) := by
  have steps := marks.unmarked
  refine (same_expect steps _).bind fun _ => (same_identifier steps).bind fun name => ?_
  refine (same_expect steps _).bind fun _ => ?_
  refine SameOn.bind (same_peek steps fun _ =>
    same_ite (same_pure _) (same_parameterNames marks _)) fun names => ?_
  exact (same_expect steps _).bind fun _ => nested.bind fun body => same_pure _

include marks inner in
theorem same_giveBack : SameOn related related (giveBack left) (giveBack right) :=
  (same_expect marks.unmarked _).bind fun _ =>
    (inner marks.unmarked).bind fun _ => same_pure _

include marks inner nested in
theorem same_statement :
    SameOn related related (statement grammar left leftBlock)
      (statement grammar right rightBlock) := by
  have steps := marks.unmarked
  have invalid : SameOn related related (invalidStart : Parser σ Statement) invalidStart :=
    same_invalidStart steps
  have bare : SameOn related related (bareStatement grammar left leftBlock)
      (bareStatement grammar right rightBlock) := by
    refine same_peek steps fun kind => ?_
    split
    · exact same_assignmentOrExpression marks inner
    · exact same_ite (same_choice marks inner nested) invalid
    · exact same_ite (same_loop marks inner nested) invalid
    · exact same_ite (same_declaration marks nested) invalid
    · exact same_ite (same_giveBack marks inner) invalid
    · exact invalid
  exact bare.bind fun found => (same_skipNewline steps).bind fun _ => same_pure _

end Statements

section Sequences

variable {related : σ → τ → Prop} (steps : InStep related) {left : Parser σ Statement}
  {right : Parser τ Statement} (inner : SameOn related related left right)

include steps inner

theorem same_statementsInBlock (count : Nat) :
    SameOn related related (statementsInBlock left count) (statementsInBlock right count) := by
  induction count with
  | zero => exact same_pure _
  | succ count inductionHypothesis =>
      refine same_peek steps fun kind => ?_
      split
      · exact same_pure _
      · exact same_unexpected steps _
      · exact inner.bind fun first => inductionHypothesis.bind fun rest => same_pure _

theorem same_statementsToEnd (count : Nat) :
    SameOn related related (statementsToEnd left count) (statementsToEnd right count) := by
  induction count with
  | zero => exact same_pure _
  | succ count inductionHypothesis =>
      refine same_peek steps fun kind => same_ite (same_pure _) ?_
      exact inner.bind fun first => inductionHypothesis.bind fun rest => same_pure _

end Sequences

section

variable {related : σ → τ → Prop}
  {marked : TokenSource.Checkpoint σ → TokenSource.Checkpoint τ → σ → τ → Prop}
  (marks : MarksInStep related marked)

include marks

theorem same_block (grammar : Grammar) (room : Nat) :
    SameOn related related (block grammar room : Parser σ Block) (block grammar room) := by
  have steps := marks.unmarked
  induction room with
  | zero => exact same_tooDeep steps
  | succ room inductionHypothesis =>
      have each : SameOn related related
          (statement grammar (expression grammar room) (block grammar room) : Parser σ Statement)
          (statement grammar (expression grammar room) (block grammar room)) :=
        same_statement marks (fun steps => same_expression steps grammar room) inductionHypothesis
      refine (same_expect steps _).bind fun _ => (same_skipNewline steps).bind fun _ => ?_
      refine (same_statementsInBlock steps each _).bind fun statements => ?_
      refine (same_advance steps).bind fun _ => (same_skipNewline steps).bind fun _ => ?_
      exact same_pure statements

/-- Sources that are related give the same program, or the same failure. -/
theorem same_program (grammar : Grammar) :
    SameOn related related (program grammar : Parser σ Block) (program grammar) := by
  have steps := marks.unmarked
  refine (same_skipNewline steps).bind fun _ => same_statementsToEnd steps ?_ _
  exact same_statement marks (fun steps => same_expression steps grammar maxNesting)
    (same_block marks grammar maxNesting)

end

end Parser

end Scriptlet
