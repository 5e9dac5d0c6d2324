import Scriptlet.Program
import Scriptlet.Proofs.Parser.Acceptance

/-!
Contract: parsing fails lexically exactly where cutting the text into tokens does.

Owns:
- parsers that pass over no end of input, and fail lexically only when all tokens
  are passed over, one lemma for each parser;
- that no text fails to be cut because a token is asked for past its end;
- the lexical failure of parsing is that of cutting the whole text into tokens.

A parser passes over a token that it has seen to be some other one, with one
exception: the token after the statements of a block is passed over unseen.  The
limit on the number of statements is what makes it a closing brace.
-/

namespace Scriptlet

namespace Parser

section Steps

variable {α β : Type} {feed : Feed} {limit : Nat}

theorem bind_of_ok {parser : Parser Feed α} {next : α → Parser Feed β} {value : α} {middle : Feed}
    (success : parser feed = .ok (value, middle)) :
    (parser >>= next) feed = next value middle := by
  change StateT.bind parser next feed = _
  rw [StateT.bind, success]
  rfl

theorem bind_of_error {parser : Parser Feed α} {next : α → Parser Feed β} {failure : ParseError}
    (failed : parser feed = .error failure) : (parser >>= next) feed = .error failure := by
  change StateT.bind parser next feed = _
  rw [StateT.bind, failed]
  rfl

/-- Whether a parser passes over no end of input on a feed, and fails lexically only
with the failure that stands after all tokens. -/
def HeedsEndAt (parser : Parser Feed α) (feed : Feed) : Prop :=
  match parser feed with
  | .ok (_, final) =>
      final.stop = feed.stop ∧ ∃ passed, .endOfInput ∉ passed ∧ feed.kinds = passed ++ final.kinds
  | .error (.lexical failure) => failure = feed.stop ∧ .endOfInput ∉ feed.kinds
  | .error _ => True

/-- Whether a parser heeds the end of every feed within a limit. -/
def HeedsEnd (limit : Nat) (parser : Parser Feed α) : Prop :=
  ∀ ⦃feed : Feed⦄, feed.kinds.length ≤ limit → HeedsEndAt parser feed

theorem HeedsEndAt.of_ok {parser : Parser Feed α} {result : α} {final : Feed}
    (heeds : HeedsEndAt parser feed) (success : parser feed = .ok (result, final)) :
    final.stop = feed.stop ∧
      ∃ passed, .endOfInput ∉ passed ∧ feed.kinds = passed ++ final.kinds := by
  rw [HeedsEndAt, success] at heeds
  exact heeds

theorem HeedsEndAt.of_lexical {parser : Parser Feed α} {error : LexError}
    (heeds : HeedsEndAt parser feed) (failed : parser feed = .error (.lexical error)) :
    error = feed.stop ∧ .endOfInput ∉ feed.kinds := by
  rw [HeedsEndAt, failed] at heeds
  exact heeds

theorem HeedsEndAt.bind {parser : Parser Feed α} {next : α → Parser Feed β}
    (first : HeedsEndAt parser feed)
    (second : ∀ value middle, parser feed = .ok (value, middle) → HeedsEndAt (next value) middle) :
    HeedsEndAt (parser >>= next) feed := by
  cases outcome : parser feed with
  | error failure =>
      rw [HeedsEndAt, bind_of_error outcome]
      cases failure with
      | lexical error => exact first.of_lexical outcome
      | unexpected | invalidStart | invalidTarget | tooDeep => trivial
  | ok pair =>
      obtain ⟨value, middle⟩ := pair
      obtain ⟨sameStop, passed, noEnd, taken⟩ := first.of_ok outcome
      have rest := second value middle outcome
      unfold HeedsEndAt at rest ⊢
      rw [bind_of_ok outcome]
      split at rest
      · obtain ⟨stillSame, more, stillNoEnd, takenMore⟩ := rest
        refine ⟨stillSame.trans sameStop, passed ++ more, ?_, ?_⟩
        · simp [noEnd, stillNoEnd]
        · rw [taken, takenMore, List.append_assoc]
      · obtain ⟨isStop, stillNoEnd⟩ := rest
        refine ⟨isStop.trans sameStop, ?_⟩
        rw [taken]
        simp [noEnd, stillNoEnd]
      · trivial

theorem HeedsEnd.bind {parser : Parser Feed α} {next : α → Parser Feed β}
    (first : HeedsEnd limit parser) (second : ∀ value, HeedsEnd limit (next value)) :
    HeedsEnd limit (parser >>= next) := by
  intro feed within
  refine (first within).bind fun value middle success => second value ?_
  obtain ⟨_, passed, _, taken⟩ := (first within).of_ok success
  have shorter := length_kinds_of_take taken
  omega

theorem heedsEnd_pure (value : α) : HeedsEnd limit (pure value) :=
  fun _ _ => ⟨rfl, [], List.not_mem_nil, rfl⟩

theorem heedsEnd_unexpected (expected : String) :
    HeedsEnd limit (unexpected expected : Parser Feed α) :=
  fun _ _ => trivial

theorem heedsEnd_tooDeep : HeedsEnd limit (tooDeep : Parser Feed α) :=
  fun _ _ => trivial

theorem heedsEnd_invalidStart : HeedsEnd limit (invalidStart : Parser Feed α) :=
  fun _ _ => trivial

/-- A token that is not the end of input can be passed over. -/
theorem heedsEndAt_advance (passable : feed.current.kind ≠ .endOfInput) :
    HeedsEndAt advance feed := by
  obtain ⟨current, later, stop⟩ := feed
  cases later with
  | nil => exact ⟨rfl, by simpa [Feed.kinds] using passable.symm⟩
  | cons next later => exact ⟨rfl, [current.kind], by simpa using passable.symm, rfl⟩

/-- A token that was seen to be no end of input is passed over. -/
theorem HeedsEnd.pass {next : Parser Feed α} (heeds : HeedsEnd limit next)
    (passable : feed.current.kind ≠ .endOfInput) (within : feed.kinds.length ≤ limit) :
    HeedsEndAt (advance >>= fun _ => next) feed := by
  refine (heedsEndAt_advance passable).bind fun _ middle advanced => heeds ?_
  have taken := advance_eq_ok advanced
  rw [taken, List.length_cons] at within
  exact Nat.le_of_succ_le within

theorem heedsEndAt_peek {next : TokenKind → Parser Feed α} :
    HeedsEndAt (peek >>= next) feed = HeedsEndAt (next feed.current.kind) feed :=
  rfl

theorem heedsEndAt_mark {next : TokenSource.Checkpoint Feed → Parser Feed α} :
    HeedsEndAt (mark >>= next) feed = HeedsEndAt (next feed) feed :=
  rfl

theorem heedsEndAt_unmark {next : Unit → Parser Feed α} :
    HeedsEndAt (unmark >>= next) feed = HeedsEndAt (next ()) feed :=
  rfl

/-- Passes over a token of a kind if one is in sight. -/
theorem heedsEnd_passIf {condition : TokenKind → Prop} [DecidablePred condition]
    {first second : Parser Feed α} (passable : ¬ condition .endOfInput)
    (holds : HeedsEnd limit first) (fails : HeedsEnd limit second) :
    HeedsEnd limit (peek >>= fun kind =>
      if condition kind then advance >>= fun _ => first else second) := by
  intro feed within
  change HeedsEndAt (if condition feed.current.kind then advance >>= fun _ => first else second)
    feed
  split
  · next isKind => exact holds.pass (fun isEnd => passable (isEnd ▸ isKind)) within
  · exact fails within

theorem heedsEnd_peekIf {condition : TokenKind → Prop} [DecidablePred condition]
    {first second : Parser Feed α} (holds : HeedsEnd limit first) (fails : HeedsEnd limit second) :
    HeedsEnd limit (peek >>= fun kind => if condition kind then first else second) := by
  intro feed within
  change HeedsEndAt (if condition feed.current.kind then first else second) feed
  split
  · exact holds within
  · exact fails within

theorem heedsEnd_expect {kind : TokenKind} (passable : kind ≠ .endOfInput) :
    HeedsEnd limit (expect kind) := by
  intro feed within
  change HeedsEndAt (if feed.current.kind = kind then advance else unexpected kind.describe) feed
  split
  · next isKind => exact heedsEndAt_advance (isKind ▸ passable)
  · exact heedsEnd_unexpected _ within

theorem heedsEnd_expectSymbol (sign : Symbol) : HeedsEnd limit (expect (.symbol sign)) :=
  heedsEnd_expect nofun

theorem heedsEnd_expectKeyword (word : Keyword) : HeedsEnd limit (expect (.keyword word)) :=
  heedsEnd_expect nofun

theorem heedsEnd_identifier : HeedsEnd limit identifier := by
  intro feed within
  rw [identifier, heedsEndAt_peek]
  split
  · next isName => exact (heedsEnd_pure _).pass (by simp [isName]) within
  · exact heedsEnd_unexpected _ within

theorem heedsEnd_skipNewline : HeedsEnd limit skipNewline := by
  intro feed within
  change HeedsEndAt (if feed.current.kind = .newline then advance else pure ()) feed
  split
  · next isNewline => exact heedsEndAt_advance (by simp [isNewline])
  · exact heedsEnd_pure _ within

theorem heedsEnd_bounded (expr : Expr) : HeedsEnd limit (bounded expr) := by
  unfold bounded
  split
  · exact heedsEnd_tooDeep
  · exact heedsEnd_pure expr

end Steps

/-! ## Expressions -/

section Expressions

variable {grammar : Grammar} {limit : Nat} {expression : Parser Feed Expr}

theorem heedsEnd_items (inner : HeedsEnd limit expression) (count : Nat) :
    HeedsEnd limit (items expression count) := by
  induction count with
  | zero => exact heedsEnd_pure _
  | succ count inductionHypothesis =>
      rw [items]
      refine inner.bind fun first => heedsEnd_passIf (by simp) ?_ (heedsEnd_pure _)
      exact inductionHypothesis.bind fun rest => heedsEnd_pure _

theorem heedsEnd_listUpTo (inner : HeedsEnd limit expression) (close : Symbol) :
    HeedsEnd limit (listUpTo grammar close expression) := by
  refine heedsEnd_passIf (by simp) (heedsEnd_pure _) ?_
  refine (heedsEnd_items inner _).bind fun found => ?_
  exact (heedsEnd_expectSymbol _).bind fun _ => heedsEnd_pure _

theorem heedsEnd_indexes (inner : HeedsEnd limit expression) (count : Nat) (base : Expr) :
    HeedsEnd limit (indexes grammar expression count base) := by
  induction count generalizing base with
  | zero => exact heedsEnd_pure _
  | succ count inductionHypothesis =>
      rw [indexes]
      refine heedsEnd_passIf (by simp) ?_ (heedsEnd_pure _)
      refine inner.bind fun offset => (heedsEnd_expectSymbol _).bind fun _ => ?_
      exact (heedsEnd_bounded _).bind fun indexed => inductionHypothesis indexed

theorem heedsEnd_place (inner : HeedsEnd limit expression) :
    HeedsEnd limit (place grammar expression) := by
  refine heedsEnd_identifier.bind fun name => heedsEnd_passIf (by simp) ?_ ?_
  · refine (heedsEnd_listUpTo inner .rightParen).bind fun arguments => ?_
    exact (heedsEnd_bounded _).bind fun call => heedsEnd_indexes inner _ call
  · exact heedsEnd_indexes inner _ (.name name)

theorem heedsEnd_primary (inner : HeedsEnd limit expression) :
    HeedsEnd limit (primary grammar expression) := by
  intro feed within
  rw [primary, heedsEndAt_peek]
  cases isKind : feed.current.kind with
  | integer value => exact (heedsEnd_pure _).pass (by simp [isKind]) within
  | identifier name => exact heedsEnd_place inner within
  | symbol sign =>
      have passable : feed.current.kind ≠ .endOfInput := by simp [isKind]
      cases sign with
      | leftParen =>
          have rest : HeedsEnd limit (do
              let inner ← expression
              expect (.symbol .rightParen)
              return inner) :=
            inner.bind fun _ => (heedsEnd_expectSymbol _).bind fun _ => heedsEnd_pure _
          exact rest.pass passable within
      | leftBracket =>
          by_cases allowed : Feature.array ∈ grammar.features
          · have rest : HeedsEnd limit (do
                let found ← listUpTo grammar .rightBracket expression
                bounded (.array found)) :=
              (heedsEnd_listUpTo inner .rightBracket).bind fun found => heedsEnd_bounded _
            simp only [if_pos allowed]
            exact rest.pass passable within
          · simp only [if_neg allowed]
            exact heedsEnd_unexpected _ within
      | _ => exact heedsEnd_unexpected _ within
  | _ => exact heedsEnd_unexpected _ within

theorem heedsEnd_signed {underSign plain : Parser Feed Expr} (under : HeedsEnd limit underSign)
    (without : HeedsEnd limit plain) : HeedsEnd limit (signed underSign plain) := by
  intro feed within
  rw [signed, heedsEndAt_peek]
  split
  · next operator isSign =>
      have passable : feed.current.kind ≠ .endOfInput := by
        intro isEnd
        rw [isEnd] at isSign
        cases isSign
      exact (under.bind fun operand => heedsEnd_bounded _).pass passable within
  · exact without within

theorem heedsEnd_chain {operandAt : Nat → Parser Feed Expr} {least : Nat}
    (inner : ∀ level, HeedsEnd limit (operandAt level)) (count : Nat) (left : Expr) :
    HeedsEnd limit (chain least operandAt count left) := by
  induction count generalizing left with
  | zero => exact heedsEnd_pure _
  | succ count inductionHypothesis =>
      intro feed within
      rw [chain, heedsEndAt_peek]
      split
      · next operator isOperator =>
          have passable : feed.current.kind ≠ .endOfInput := by
            intro isEnd
            rw [isEnd] at isOperator
            cases isOperator
          split
          · exact heedsEnd_pure _ within
          · have rest := (inner (operator.level + 1)).bind fun right =>
              (heedsEnd_bounded (.binary operator left right)).bind inductionHypothesis
            exact rest.pass passable within
      · exact heedsEnd_pure _ within

theorem heedsEnd_climb {operand : Parser Feed Expr} {operandAt : Nat → Parser Feed Expr} {least : Nat}
    (first : HeedsEnd limit operand) (inner : ∀ level, HeedsEnd limit (operandAt level)) :
    HeedsEnd limit (climb grammar operand operandAt least) := by
  refine heedsEnd_passIf (by simp) ?_ ?_
  · refine (inner _).bind fun negated => (heedsEnd_bounded _).bind fun negation => ?_
    exact heedsEnd_chain inner _ negation
  · exact first.bind fun expr => heedsEnd_chain inner _ expr

end Expressions

theorem heedsEnd_expressionAt_operand (grammar : Grammar) (limit room : Nat) :
    (∀ least, HeedsEnd limit (expressionAt grammar room least)) ∧
      HeedsEnd limit (operand grammar room) := by
  induction room with
  | zero =>
      exact ⟨fun _ => heedsEnd_tooDeep,
        heedsEnd_signed heedsEnd_tooDeep (heedsEnd_primary heedsEnd_tooDeep)⟩
  | succ room inductionHypothesis =>
      have expressions : ∀ least, HeedsEnd limit (expressionAt grammar (room + 1) least) :=
        fun _ => heedsEnd_climb inductionHypothesis.2 inductionHypothesis.1
      exact ⟨expressions, heedsEnd_signed inductionHypothesis.2 (heedsEnd_primary (expressions 0))⟩

theorem heedsEnd_expression (grammar : Grammar) (limit room : Nat) :
    HeedsEnd limit (expression grammar room) :=
  (heedsEnd_expressionAt_operand grammar limit room).1 0

/-! ## Statements -/

section Statements

variable {grammar : Grammar} {limit : Nat} {expression : Parser Feed Expr} {block : Parser Feed Block}
  (inner : HeedsEnd limit expression) (nested : HeedsEnd limit block)

theorem heedsEnd_assignment (target value : Expr) :
    HeedsEnd limit (assignment target value) := by
  unfold assignment
  split
  · exact heedsEnd_pure _
  · exact heedsEnd_pure _
  · exact fun _ _ => trivial

include inner in
/-- Where no assignment sign stands after a place, the tokens are read from the
feed that was kept. -/
theorem heedsEnd_assignmentOrExpression :
    HeedsEnd limit (assignmentOrExpression grammar expression) := by
  intro feed within
  rw [assignmentOrExpression, heedsEndAt_mark]
  have heeds : HeedsEndAt (place grammar expression) feed := heedsEnd_place inner within
  cases outcome : place grammar expression feed with
  | error failure =>
      refine heeds.bind fun target middle success => ?_
      cases outcome.symm.trans success
  | ok pair =>
      obtain ⟨target, middle⟩ := pair
      by_cases isAssign : middle.current.kind = .symbol .assign
      · refine heeds.bind fun other again success => ?_
        cases outcome.symm.trans success
        have shorter : middle.kinds.length ≤ feed.kinds.length := by
          obtain ⟨_, passed, _, taken⟩ := heeds.of_ok outcome
          have shorter := length_kinds_of_take taken
          omega
        rw [heedsEndAt_peek, if_pos isAssign, heedsEndAt_unmark]
        exact (inner.bind fun value => heedsEnd_assignment target value).pass
          (by simp [isAssign]) (Nat.le_trans shorter within)
      · have evaluates : HeedsEnd limit (do return Statement.evaluate (← expression)) :=
          inner.bind fun expr => heedsEnd_pure (Statement.evaluate expr)
        unfold HeedsEndAt
        rw [bind_of_ok outcome, peek_bind, if_neg isAssign, rewind_bind]
        exact evaluates within

include inner in
theorem heedsEnd_assignmentOnly : HeedsEnd limit (assignmentOnly grammar expression) := by
  refine (heedsEnd_place inner).bind fun target => (heedsEnd_expectSymbol _).bind fun _ => ?_
  exact inner.bind fun value => heedsEnd_assignment target value

include inner nested in
theorem heedsEnd_branch : HeedsEnd limit (branch expression block) :=
  inner.bind fun _ => nested.bind fun _ => heedsEnd_pure _

include inner nested in
theorem heedsEnd_elseIfBranches (count : Nat) :
    HeedsEnd limit (elseIfBranches grammar expression block count) := by
  induction count with
  | zero => exact heedsEnd_pure _
  | succ count inductionHypothesis =>
      rw [elseIfBranches]
      refine heedsEnd_passIf (by simp) ?_ (heedsEnd_pure _)
      exact (heedsEnd_branch inner nested).bind fun first =>
        inductionHypothesis.bind fun rest => heedsEnd_pure _

include inner nested in
theorem heedsEnd_choice : HeedsEnd limit (choice grammar expression block) := by
  refine (heedsEnd_expectKeyword _).bind fun _ => ?_
  refine (heedsEnd_branch inner nested).bind fun first => ?_
  refine (heedsEnd_elseIfBranches inner nested _).bind fun rest => ?_
  refine heedsEnd_passIf (by simp) ?_ (heedsEnd_pure _)
  exact nested.bind fun otherwise => heedsEnd_pure _

include inner in
theorem heedsEnd_headerPart (absent : Symbol) :
    HeedsEnd limit (headerPart grammar expression absent) :=
  heedsEnd_peekIf (heedsEnd_pure _) (heedsEnd_assignmentOnly inner)

include inner in
theorem heedsEnd_headerCondition : HeedsEnd limit (headerCondition expression) :=
  heedsEnd_peekIf (heedsEnd_pure _) (inner.bind fun _ => heedsEnd_pure _)

include inner nested in
theorem heedsEnd_loop : HeedsEnd limit (loop grammar expression block) := by
  refine (heedsEnd_expectKeyword _).bind fun _ => ?_
  refine (heedsEnd_headerPart inner _).bind fun initial => ?_
  refine (heedsEnd_expectSymbol _).bind fun _ => (heedsEnd_headerCondition inner).bind fun _ => ?_
  refine (heedsEnd_expectSymbol _).bind fun _ => (heedsEnd_headerPart inner _).bind fun step => ?_
  exact nested.bind fun body => heedsEnd_pure _

theorem heedsEnd_parameterNames (count : Nat) : HeedsEnd limit (parameterNames count) := by
  induction count with
  | zero => exact heedsEnd_pure _
  | succ count inductionHypothesis =>
      rw [parameterNames]
      refine heedsEnd_identifier.bind fun first => ?_
      refine heedsEnd_passIf (by simp) ?_ (heedsEnd_pure _)
      exact inductionHypothesis.bind fun rest => heedsEnd_pure _

include nested in
theorem heedsEnd_declaration : HeedsEnd limit (declaration grammar block) := by
  have parameters : HeedsEnd limit (parameters grammar) :=
    heedsEnd_peekIf (heedsEnd_pure _) (heedsEnd_parameterNames _)
  refine (heedsEnd_expectKeyword _).bind fun _ => heedsEnd_identifier.bind fun name => ?_
  refine (heedsEnd_expectSymbol _).bind fun _ => parameters.bind fun names => ?_
  exact (heedsEnd_expectSymbol _).bind fun _ => nested.bind fun body => heedsEnd_pure _

include inner in
theorem heedsEnd_giveBack : HeedsEnd limit (giveBack expression) :=
  (heedsEnd_expectKeyword _).bind fun _ => inner.bind fun _ => heedsEnd_pure _

include inner nested in
theorem heedsEnd_statement : HeedsEnd limit (statement grammar expression block) := by
  have bare : HeedsEnd limit (bareStatement grammar expression block) := by
    intro feed within
    rw [bareStatement, heedsEndAt_peek]
    split
    · exact heedsEnd_assignmentOrExpression inner within
    · split
      · exact heedsEnd_choice inner nested within
      · exact heedsEnd_invalidStart within
    · split
      · exact heedsEnd_loop inner nested within
      · exact heedsEnd_invalidStart within
    · split
      · exact heedsEnd_declaration nested within
      · exact heedsEnd_invalidStart within
    · split
      · exact heedsEnd_giveBack inner within
      · exact heedsEnd_invalidStart within
    · exact heedsEnd_invalidStart within
  exact bare.bind fun found => heedsEnd_skipNewline.bind fun _ => heedsEnd_pure _

end Statements

section Sequences

variable {limit : Nat} {statement : Parser Feed Statement} (inner : HeedsEnd limit statement)

include inner in
theorem heedsEnd_statementsInBlock (count : Nat) :
    HeedsEnd limit (statementsInBlock statement count) := by
  induction count with
  | zero => exact heedsEnd_pure _
  | succ count inductionHypothesis =>
      intro feed within
      rw [statementsInBlock, heedsEndAt_peek]
      split
      · exact heedsEnd_pure _ within
      · exact heedsEnd_unexpected _ within
      · have rest := inner.bind fun first =>
          inductionHypothesis.bind fun rest => heedsEnd_pure (first :: rest)
        exact rest within

include inner in
theorem heedsEnd_statementsToEnd (count : Nat) :
    HeedsEnd limit (statementsToEnd statement count) := by
  induction count with
  | zero => exact heedsEnd_pure _
  | succ count inductionHypothesis =>
      rw [statementsToEnd]
      refine heedsEnd_peekIf (heedsEnd_pure _) ?_
      exact inner.bind fun first => inductionHypothesis.bind fun rest => heedsEnd_pure _

end Sequences

/-- The statements of a block leave its closing brace in sight, since no block has
more of them than there are tokens. -/
theorem heedsEnd_block (grammar : Grammar) (room : Nat) :
    HeedsEnd grammar.limit (block grammar room) := by
  induction room with
  | zero => exact heedsEnd_tooDeep
  | succ room inductionHypothesis =>
      have inner : HeedsEnd grammar.limit
          (statement grammar (expression grammar room) (block grammar room)) :=
        heedsEnd_statement (heedsEnd_expression grammar grammar.limit room) inductionHypothesis
      have each := statement_sound (expression_sound grammar room) (block_sound grammar room)
      have closing : HeedsEnd grammar.limit (do
          let statements ← statementsInBlock
            (statement grammar (expression grammar room) (block grammar room)) grammar.limit
          advance
          skipNewline
          return statements) := by
        intro feed within
        have heeds := heedsEnd_statementsInBlock inner grammar.limit within
        refine heeds.bind fun statements middle success => ?_
        obtain ⟨closed, tokens, taken, _⟩ :=
          statementsInBlock_sound each grammar.limit within within success
        have shorter := length_kinds_of_take taken
        have rest : HeedsEnd grammar.limit (do
            skipNewline
            return statements) :=
          heedsEnd_skipNewline.bind fun _ => heedsEnd_pure statements
        exact rest.pass (by simp [closed]) (by omega)
      rw [block]
      exact (heedsEnd_expectSymbol _).bind fun _ => heedsEnd_skipNewline.bind fun _ => closing

theorem heedsEnd_program (grammar : Grammar) : HeedsEnd grammar.limit (program grammar) :=
  heedsEnd_skipNewline.bind fun _ => heedsEnd_statementsToEnd
    (heedsEnd_statement (heedsEnd_expression grammar _ _) (heedsEnd_block grammar _)) _

end Parser

/-! ## Lexical failures -/

theorem outcome_readLexeme_ne_exhausted (features : FeatureSet) (position : Nat) (first : Char)
    (rest : List Char) : (readLexeme features position first rest).outcome ≠ .error .exhausted := by
  unfold readLexeme
  split
  · exact nofun
  · split
    · exact nofun
    · split
      · unfold readInteger
        simp only
        split <;> exact nofun
      · unfold readSymbol
        split <;> exact nofun

theorem scan_ne_exhausted (features : FeatureSet) (cursor : Cursor) :
    (scan features cursor).1 ≠ .error .exhausted := by
  unfold scan
  split
  · exact nofun
  · next first rest position _ =>
      split
      · exact nofun
      · have read := outcome_readLexeme_ne_exhausted features position first rest
        intro exhausted
        simp only at exhausted
        cases outcome : (readLexeme features position first rest).outcome with
        | ok kind => simp [outcome, Except.map] at exhausted
        | error failure =>
            rw [outcome] at exhausted
            cases exhausted
            exact read outcome

/-- Cutting a text into tokens never asks for one past its end. -/
theorem failure_scanAll_ne_exhausted (features : FeatureSet) (cursor : Cursor) :
    (scanAll features cursor).failure ≠ some .exhausted := by
  fun_induction scanAll features cursor with
  | case1 cursor failure next scanned =>
      intro exhausted
      cases exhausted
      exact scan_ne_exhausted features cursor (congrArg Prod.fst scanned)
  | case2 => simp
  | case3 cursor token next scanned notEnd inductionHypothesis => exact inductionHypothesis

/-- Parsing tokens fails lexically only if none of them is the end of input, and
then with the failure after them. -/
theorem lexical_of_parseTokens {grammar : Grammar} {run : TokenRun} {error : LexError}
    (within : run.tokens.length ≤ grammar.limit)
    (failed : parseTokens grammar run = .error (.lexical error)) :
    error = run.failure.getD .exhausted ∧ .endOfInput ∉ run.kinds := by
  obtain ⟨tokens, failure⟩ := run
  cases tokens with
  | nil =>
      cases failed
      exact ⟨rfl, List.not_mem_nil⟩
  | cons current later =>
      let feed : Feed := ⟨current, later, failure.getD .exhausted⟩
      have heeds : Parser.HeedsEndAt (Parser.program grammar) feed :=
        Parser.heedsEnd_program grammar (by simpa [feed, Feed.kinds] using within)
      apply heeds.of_lexical
      have failed : (Parser.program grammar feed).map Prod.fst = .error (.lexical error) := failed
      cases outcome : Parser.program grammar feed with
      | ok pair => simp [outcome, Except.map] at failed
      | error failure =>
          rw [outcome] at failed
          cases failed
          rfl

/-- A lexical failure of parsing a text is where its tokens end. -/
theorem failure_of_parse {features : FeatureSet} {source : String} {error : LexError}
    (failed : parse features source = .error (.lexical error)) :
    (scanAll features (Cursor.start source)).failure = some error := by
  rw [parse_eq_parseTokens] at failed
  obtain ⟨isStop, noEnd⟩ := lexical_of_parseTokens (length_scanAll_le features _) failed
  obtain ⟨kinds, _, ⟨_, isAll⟩ | ⟨notFinished, _⟩⟩ :=
    scanAll_kinds_shape features (Cursor.start source)
  · exact absurd (by simp [isAll]) noEnd
  · obtain ⟨failure, isFailure⟩ := Option.ne_none_iff_exists'.mp notFinished
    rw [isFailure] at isStop ⊢
    exact congrArg some isStop.symm

theorem parse_ne_exhausted (features : FeatureSet) (source : String) :
    parse features source ≠ .error (.lexical .exhausted) :=
  fun failed => failure_scanAll_ne_exhausted features (Cursor.start source) (failure_of_parse failed)

/-- The parser, which reads tokens from the text only as it needs them, agrees with
the cutting of the whole text on lexical failures.  A text that is accepted is cut
without failure, and a lexical failure of parsing is that of cutting.  A stream that
is asked for a token past the end of input fails with `exhausted`, and no text is
parsed with that failure. -/
theorem parse_agrees_with_tokenize (features : FeatureSet) (source : String) :
    (∀ body, parse features source = .ok body →
      ∃ tokens, tokenize features source = .ok tokens) ∧
    (∀ error, parse features source = .error (.lexical error) →
      tokenize features source = .error error) ∧
    parse features source ≠ .error (.lexical .exhausted) ∧
    Program.compile features source ≠ .error (.lexical .exhausted) := by
  refine ⟨fun body parsed => ?_, fun error failed => ?_, parse_ne_exhausted features source,
    fun failed => parse_ne_exhausted features source ?_⟩
  · exact ⟨_, tokenize_eq_ok_iff.mpr ⟨(derivedFrom_of_parse parsed).2, rfl⟩⟩
  · exact tokenize_eq_error_iff.mpr (failure_of_parse failed)
  · unfold Program.compile at failed
    cases outcome : parse features source with
    | ok body => simp [outcome, Except.map] at failed
    | error failure =>
        rw [outcome] at failed
        cases failed
        rfl

/-- The failure is met when the statement is read again as an expression. -/
theorem parse_agrees_with_tokenize_rereading :
    parse {.array} "a[0]+$" = .error (.lexical (.invalidCharacter '$' 5)) ∧
    tokenize {.array} "a[0]+$" = .error (.invalidCharacter '$' 5) := by
  have failed : parse {.array} "a[0]+$" = .error (.lexical (.invalidCharacter '$' 5)) := by
    decide +kernel
  have agrees := parse_agrees_with_tokenize {.array} "a[0]+$"
  exact ⟨failed, agrees.2.1 _ failed⟩

end Scriptlet
