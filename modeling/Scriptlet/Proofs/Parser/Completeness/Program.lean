import Scriptlet.Proofs.Grammar.Newlines
import Scriptlet.Proofs.Parser.Completeness.Expression
import Scriptlet.Proofs.Parser.Soundness.Program

/-!
Contract: the parser accepts every program that its tokens derive and that it has
the room for, whichever of the line feeds are left out.

Owns the completeness invariant of each form of statements, one lemma for each
production, and its proof by induction on derivations.

A derivation may leave the line feed after a block to the statement that the
block ends, while the parser always takes it with the block.  So the invariants
of forms that can end in a block are stated up to a line feed `gap` after the
form, of which the parser leaves all or nothing.
-/

namespace Scriptlet

namespace Parser

open StatementForm

/-- The token can stand after a whole statement. -/
def EndsStatement (kind : TokenKind) : Prop :=
  kind = .endOfInput ∨ kind = .symbol .rightBrace ∨ startsStatement kind = true

theorem EndsStatement.ne_newline {kind : TokenKind} (ends : EndsStatement kind) :
    kind ≠ .newline := by
  rintro rfl
  rcases ends with atEnd | atBrace | starts
  · cases atEnd
  · cases atBrace
  · cases starts

theorem EndsStatement.ne_keyword {kind : TokenKind} (ends : EndsStatement kind) :
    kind ≠ .keyword .elseIf ∧ kind ≠ .keyword .otherwise := by
  constructor <;>
  · rintro rfl
    rcases ends with atEnd | atBrace | starts
    · cases atEnd
    · cases atBrace
    · cases starts

theorem EndsStatement.endsExpression {kind : TokenKind} (ends : EndsStatement kind) :
    EndsExpression kind := by
  rcases ends with rfl | rfl | starts
  · decide
  · decide
  · unfold startsStatement at starts
    split at starts
    · exact ⟨rfl, nofun, nofun⟩
    · decide
    · decide
    · decide
    · decide
    · cases starts

theorem EndsStatement.ne_assign {kind : TokenKind} (ends : EndsStatement kind) :
    kind ≠ .symbol .assign := by
  rintro rfl
  rcases ends with atEnd | atBrace | starts
  · cases atEnd
  · cases atBrace
  · cases starts

/-- The first token of what stands after a statement without its line feed can
end an expression and starts no further part of the statement. -/
theorem EndsStatement.exists_after_gap {kind : TokenKind} (ends : EndsStatement kind)
    {gap : List TokenKind} (isGap : OptionalNewline gap) (more : List TokenKind) :
    ∃ first later, gap ++ kind :: more = first :: later ∧ EndsExpression first ∧
      first ≠ .symbol .assign ∧ first ≠ .keyword .elseIf ∧ first ≠ .keyword .otherwise := by
  rcases isGap with rfl | rfl
  · exact ⟨kind, more, rfl, ends.endsExpression, ends.ne_assign, ends.ne_keyword⟩
  · exact ⟨.newline, kind :: more, rfl, by decide, by decide, by decide, by decide⟩

/-- As `Yields`, where the parser leaves `tail`, all or nothing of `gap`, and
`rest`. -/
def YieldsUpTo {α : Type} (fits : Prop) (parser : Parser Feed α) (feed : Feed) (result : α)
    (tail gap rest : List TokenKind) : Prop :=
  ∃ left, (left = [] ∨ left = gap) ∧ Yields fits parser feed result (tail ++ (left ++ rest))

section YieldsUpTo

variable {α β : Type} {fits goesOn : Prop} {first : Parser Feed α} {next : α → Parser Feed β} {feed : Feed}
  {value : α} {result : β} {middleKinds tail tail' gap rest rest' : List TokenKind}

theorem YieldsUpTo.of_iff (yields : YieldsUpTo fits first feed value tail gap rest) {other : Prop}
    (same : fits ↔ other) : YieldsUpTo other first feed value tail gap rest :=
  propext same ▸ yields

theorem YieldsUpTo.ofPure (kinds : feed.kinds = tail ++ (gap ++ rest)) :
    YieldsUpTo True (pure value) feed value tail gap rest :=
  ⟨gap, .inr rfl, .ofPure kinds⟩

theorem Yields.upTo (yields : Yields fits first feed value (tail ++ (gap ++ rest))) :
    YieldsUpTo fits first feed value tail gap rest :=
  ⟨gap, .inr rfl, yields⟩

theorem YieldsUpTo.bind (starts : YieldsUpTo fits first feed value tail gap rest)
    (continues : ∀ (left : List TokenKind) (middle : Feed), left = [] ∨ left = gap →
      middle.kinds = tail ++ (left ++ rest) →
      YieldsUpTo goesOn (next value) middle result tail' left rest') :
    YieldsUpTo (fits ∧ goesOn) (first >>= next) feed result tail' gap rest' := by
  obtain ⟨left, leaves, ⟨holds, middle, success, kinds⟩ | ⟨fails, position, failure⟩⟩ := starts
  · obtain ⟨left', leaves', yields⟩ := continues left middle leaves kinds
    refine ⟨left', ?_, (yields_bind_of_ok success yields).of_iff (by simp [holds])⟩
    rcases leaves' with rfl | rfl
    · exact .inl rfl
    · exact leaves
  · exact ⟨[], .inl rfl, yields_bind_of_tooDeep (fun both => fails both.1) failure⟩

theorem YieldsUpTo.close (starts : YieldsUpTo fits first feed value tail gap rest)
    (continues : ∀ (left : List TokenKind) (middle : Feed), left = [] ∨ left = gap →
      middle.kinds = tail ++ (left ++ rest) →
      YieldsUpTo True (next value) middle result tail' left rest') :
    YieldsUpTo fits (first >>= next) feed result tail' gap rest' :=
  (starts.bind continues).of_iff (by simp)

theorem Yields.bindUpTo (starts : Yields fits first feed value middleKinds)
    (continues : ∀ middle : Feed, middle.kinds = middleKinds →
      YieldsUpTo goesOn (next value) middle result tail gap rest) :
    YieldsUpTo (fits ∧ goesOn) (first >>= next) feed result tail gap rest := by
  rcases starts with ⟨holds, middle, success, kinds⟩ | ⟨fails, position, failure⟩
  · obtain ⟨left, leaves, yields⟩ := continues middle kinds
    exact ⟨left, leaves, (yields_bind_of_ok success yields).of_iff (by simp [holds])⟩
  · exact ⟨[], .inl rfl, yields_bind_of_tooDeep (fun both => fails both.1) failure⟩

theorem Yields.passUpTo (starts : Yields True first feed value middleKinds)
    (continues : ∀ middle : Feed, middle.kinds = middleKinds →
      YieldsUpTo goesOn (next value) middle result tail gap rest) :
    YieldsUpTo goesOn (first >>= next) feed result tail gap rest :=
  (starts.bindUpTo continues).of_iff (by simp)

end YieldsUpTo

theorem optionalNewline_of_left {left gap : List TokenKind} (leaves : left = [] ∨ left = gap)
    (isGap : OptionalNewline gap) : OptionalNewline left := by
  rcases leaves with rfl | rfl
  · exact .inl rfl
  · exact isGap

/-- What the parser of blocks does on tokens that derive a block. -/
def CompletesBlock (features : FeatureSet) (demand : Demand) (tokens : List TokenKind)
    (body : Block) : Prop :=
  ∀ ⦃limit room : Nat⦄ ⦃feed : Feed⦄ ⦃tail gap : List TokenKind⦄ ⦃kind : TokenKind⦄
    ⦃more : List TokenKind⦄, feed.kinds = tokens ++ (tail ++ (gap ++ kind :: more)) →
    feed.kinds.length ≤ limit → tail.head? ≠ some .newline → OptionalNewline gap →
    kind ≠ .newline →
    YieldsUpTo (demand.fits room) (block ⟨features, limit⟩ room) feed body tail gap (kind :: more)

/-- What the parser does on tokens that derive a form, whatever can follow
them. -/
def CompletesStatement (features : FeatureSet) (demand : Demand) (tokens : List TokenKind) :
    StatementForm → Prop
  | .assignment result =>
      ∀ ⦃limit room : Nat⦄ ⦃feed : Feed⦄ ⦃kind : TokenKind⦄ ⦃rest : List TokenKind⦄,
        feed.kinds = tokens ++ kind :: rest → feed.kinds.length ≤ limit →
        EndsExpression kind →
        Yields (demand.fits room)
          (assignmentOnly ⟨features, limit⟩ (expression ⟨features, limit⟩ room)) feed result
          (kind :: rest) ∧
        Yields (demand.fits room)
          (assignmentOrExpression ⟨features, limit⟩ (expression ⟨features, limit⟩ room)) feed
          result (kind :: rest)
  | .headerPart result =>
      ∀ ⦃limit room : Nat⦄ ⦃feed : Feed⦄ ⦃absent : Symbol⦄ ⦃rest : List TokenKind⦄,
        absent = .semicolon ∨ absent = .leftBrace →
        feed.kinds = tokens ++ .symbol absent :: rest → feed.kinds.length ≤ limit →
        Yields (demand.fits room)
          (headerPart ⟨features, limit⟩ (expression ⟨features, limit⟩ room) absent) feed result
          (.symbol absent :: rest)
  | .headerCondition result =>
      ∀ ⦃limit room : Nat⦄ ⦃feed : Feed⦄ ⦃rest : List TokenKind⦄,
        feed.kinds = tokens ++ .symbol .semicolon :: rest → feed.kinds.length ≤ limit →
        Yields (demand.fits room) (headerCondition (expression ⟨features, limit⟩ room)) feed result
          (.symbol .semicolon :: rest)
  | .elseIfs branches =>
      ∀ ⦃limit room count : Nat⦄ ⦃feed : Feed⦄ ⦃tail gap : List TokenKind⦄ ⦃kind : TokenKind⦄
        ⦃more : List TokenKind⦄, feed.kinds = tokens ++ (tail ++ (gap ++ kind :: more)) →
        feed.kinds.length ≤ limit → feed.kinds.length ≤ count →
        tail.head? ≠ some .newline → tail.head? ≠ some (.keyword .elseIf) →
        OptionalNewline gap → EndsStatement kind →
        YieldsUpTo (demand.fits room)
          (elseIfBranches ⟨features, limit⟩ (expression ⟨features, limit⟩ room)
            (block ⟨features, limit⟩ room) count) feed branches tail gap (kind :: more)
  | .otherwise body =>
      tokens = [] ∧ body = [] ∧ demand = .nothing ∨
        ∃ blockTokens, tokens = .keyword .otherwise :: blockTokens ∧
          CompletesBlock features demand blockTokens body
  | .bare result =>
      ∀ ⦃limit room : Nat⦄ ⦃feed : Feed⦄ ⦃gap : List TokenKind⦄ ⦃kind : TokenKind⦄
        ⦃more : List TokenKind⦄, feed.kinds = tokens ++ (gap ++ kind :: more) →
        feed.kinds.length ≤ limit → OptionalNewline gap → EndsStatement kind →
        YieldsUpTo (demand.fits room)
          (bareStatement ⟨features, limit⟩ (expression ⟨features, limit⟩ room)
            (block ⟨features, limit⟩ room)) feed result [] gap (kind :: more)
  | .statement result =>
      ∀ ⦃limit room : Nat⦄ ⦃feed : Feed⦄ ⦃kind : TokenKind⦄ ⦃more : List TokenKind⦄,
        feed.kinds = tokens ++ kind :: more → feed.kinds.length ≤ limit →
        EndsStatement kind →
        Yields (demand.fits room)
          (statement ⟨features, limit⟩ (expression ⟨features, limit⟩ room)
            (block ⟨features, limit⟩ room)) feed result (kind :: more)
  | .statements body =>
      ∀ ⦃limit room count : Nat⦄ ⦃feed : Feed⦄ ⦃more : List TokenKind⦄,
        feed.kinds.length ≤ limit → feed.kinds.length ≤ count →
        (feed.kinds = tokens ++ .symbol .rightBrace :: more →
          Yields (demand.fits room) (statementsInBlock
            (statement ⟨features, limit⟩ (expression ⟨features, limit⟩ room)
              (block ⟨features, limit⟩ room)) count) feed body (.symbol .rightBrace :: more)) ∧
        (feed.kinds = tokens ++ .endOfInput :: more →
          Yields (demand.fits room) (statementsToEnd
            (statement ⟨features, limit⟩ (expression ⟨features, limit⟩ room)
              (block ⟨features, limit⟩ room)) count) feed body (.endOfInput :: more))
  | .block body => CompletesBlock features demand tokens body

section Forms

variable {features : FeatureSet} {demand : Demand}

/-! ## Assignments and expressions -/

/-- An assignment to a target that can be assigned to is completed by both
parsers of assignments. -/
theorem completes_assignment {targetTokens valueTokens : List TokenKind} {target value : Expr}
    {result : Statement} {targetDemand valueDemand : Demand}
    (targetComplete : Completes features targetDemand targetTokens (.place target))
    (valueComplete : Completes features valueDemand valueTokens (.expression 1 value))
    (accepted : assignment target value = (pure result : Parser Feed Statement)) :
    CompletesStatement features (targetDemand.and valueDemand)
      (targetTokens ++ .symbol .assign :: valueTokens) (.assignment result) := by
  intro limit room feed kind rest kinds within ends
  rw [List.append_assoc, List.cons_append] at kinds
  have targetYields : Yields (targetDemand.fits room)
      (place ⟨features, limit⟩ (expression ⟨features, limit⟩ room)) feed target
      (.symbol .assign :: (valueTokens ++ kind :: rest)) :=
    targetComplete.yields_place kinds within (by decide) (by decide)
  have valueWithin : (valueTokens ++ kind :: rest).length ≤ limit := by
    rw [kinds] at within
    simp only [List.length_append, List.length_cons] at within ⊢
    omega
  have valueYields (afterSign : Feed)
      (signKinds : afterSign.kinds = valueTokens ++ kind :: rest) :
      Yields (valueDemand.fits room) (expression ⟨features, limit⟩ room >>= assignment target)
        afterSign result (kind :: rest) := by
    refine (valueComplete.yields_expression signKinds (by rw [signKinds]; exact valueWithin)
      ends).close fun afterValue valueKinds => ?_
    rw [accepted]
    exact .ofPure valueKinds
  constructor
  · refine targetYields.bind fun afterTarget targetKinds => ?_
    exact (yields_expect targetKinds (by simp)).pass valueYields
  · unfold Yields assignmentOrExpression
    rw [mark_bind]
    refine targetYields.bind fun afterTarget targetKinds => ?_
    unfold Yields
    rw [peek_bind, if_pos (Feed.current_of_kinds targetKinds), unmark_bind]
    exact (yields_advance targetKinds (by simp)).pass valueYields

/-- An expression that starts with an identifier is parsed by parsing a place
first, in the room inside the expression. -/
theorem exists_place_of_expression {grammar : Grammar} {room : Nat} {feed final : Feed}
    {expr : Expr} {name : String} (current : feed.current.kind = .identifier name)
    (success : expression grammar (room + 1) feed = .ok (expr, final)) :
    ∃ target after, place grammar (expression grammar room) feed = .ok (target, after) := by
  rw [expression, expressionAt_succ, climb, peek_bind, current, if_neg (by simp)] at success
  obtain ⟨target, after, parsed, _⟩ := bind_eq_ok.mp success
  rw [operand_of_noSign (by rw [current]; rfl), primary, peek_bind, current] at parsed
  exact ⟨target, after, parsed⟩

/-- An expression that starts with an identifier is read as an expression: no
assignment sign follows the place at its start.  Reading the place first asks for
no room that the expression does not ask for. -/
theorem yields_assignmentOrExpression_evaluate {tokens : List TokenKind} {expr : Expr}
    {name : String} {limit room : Nat} {feed : Feed} {kind : TokenKind} {rest : List TokenKind}
    (derived : ExprForm.Derives features tokens (.expression 1 expr))
    (complete : Completes features demand tokens (.expression 1 expr))
    (head : tokens.head? = some (.identifier name))
    (kinds : feed.kinds = tokens ++ kind :: rest) (within : feed.kinds.length ≤ limit)
    (ends : EndsExpression kind) (noAssign : kind ≠ .symbol .assign) :
    Yields (demand.fits room)
      (assignmentOrExpression ⟨features, limit⟩ (expression ⟨features, limit⟩ room)) feed
      (.evaluate expr) (kind :: rest) := by
  have exprYields : Yields (demand.fits room) (expression ⟨features, limit⟩ room) feed expr
      (kind :: rest) := complete.yields_expression kinds within ends
  have current := Feed.current_of_head kinds head
  obtain ⟨placeTokens, target, operators, rfl, placeDerived, follows⟩ :=
    derived.exists_place_of_head head
  have afterPlace : ∃ next later, operators ++ kind :: rest = next :: later ∧
      next ≠ .symbol .leftParen ∧ next ≠ .symbol .leftBracket ∧ next ≠ .symbol .assign := by
    cases operators with
    | nil => exact ⟨kind, rest, rfl, ends.2.1, ends.2.2, noAssign⟩
    | cons next later =>
        obtain ⟨operator, rfl⟩ := follows next rfl
        refine ⟨operator.token, later ++ kind :: rest, rfl, token_ne_leftParen operator,
          token_ne_leftBracket operator, ?_⟩
        cases operator <;> decide
  obtain ⟨next, later, afterKinds, noCall, noIndex, notAssigned⟩ := afterPlace
  have placeKinds : feed.kinds = placeTokens ++ next :: later := by
    rw [kinds, List.append_assoc, afterKinds]
  obtain ⟨placeDemand, placeComplete, _⟩ := exists_completes placeDerived
  have placeYields (room : Nat) : Yields (placeDemand.fits room)
      (place ⟨features, limit⟩ (expression ⟨features, limit⟩ room)) feed target (next :: later) :=
    placeComplete.yields_place placeKinds within noCall noIndex
  have placeFits : demand.fits room → placeDemand.fits room := by
    intro fits
    obtain ⟨final, success, _⟩ := exprYields.ok_of_fits fits
    cases room with
    | zero => exact absurd success tooDeep_ne_ok
    | succ room =>
        obtain ⟨_, _, parsed⟩ := exists_place_of_expression current success
        exact placeDemand.grows ((placeYields room).fits_of_ok parsed)
  refine Yields.of_iff ?_ (and_iff_right_of_imp placeFits)
  unfold Yields assignmentOrExpression
  rw [mark_bind]
  refine (placeYields room).bind fun afterTarget targetKinds => ?_
  unfold Yields
  rw [peek_bind, Feed.current_of_kinds targetKinds, if_neg notAssigned, rewind_bind]
  exact exprYields.close fun _ => .ofPure

/-! ## Loop headers -/

theorem completes_noPart : CompletesStatement features .nothing [] (.headerPart .skip) := by
  intro limit room feed absent rest _ kinds _
  unfold Yields headerPart
  rw [peek_bind, if_pos (Feed.current_of_kinds kinds)]
  exact Yields.ofPure kinds

theorem completes_somePart {tokens : List TokenKind} {result : Statement}
    (derived : Derives features tokens (.assignment result))
    (complete : CompletesStatement features demand tokens (.assignment result)) :
    CompletesStatement features demand tokens (.headerPart result) := by
  intro limit room feed absent rest isAbsent kinds within
  obtain ⟨name, head⟩ := derived.head?_assignment
  have ends : EndsExpression (.symbol absent) := by
    rcases isAbsent with rfl | rfl <;> decide
  unfold Yields headerPart
  rw [peek_bind, Feed.current_of_head kinds head, if_neg (by simp)]
  exact (complete kinds within ends).1

theorem completes_noCondition :
    CompletesStatement features .nothing [] (.headerCondition none) := by
  intro limit room feed rest kinds _
  unfold Yields headerCondition
  rw [peek_bind, if_pos (Feed.current_of_kinds kinds)]
  exact Yields.ofPure kinds

theorem completes_someCondition {tokens : List TokenKind} {condition : Expr}
    (derived : ExprForm.Derives features tokens (.expression 1 condition))
    (complete : Completes features demand tokens (.expression 1 condition)) :
    CompletesStatement features demand tokens (.headerCondition (some condition)) := by
  intro limit room feed rest kinds within
  obtain ⟨first, head, starts⟩ := derived.startsAs
  have notAbsent : first ≠ .symbol .semicolon := by
    rintro rfl
    rcases starts with starts | ⟨starts, _⟩ <;> cases starts
  unfold Yields headerCondition
  rw [peek_bind, Feed.current_of_head kinds head, if_neg notAbsent]
  exact (complete.yields_expression kinds within (by decide)).close fun _ => .ofPure

/-- A block at the end of a form leaves all or nothing of the gap after it. -/
theorem CompletesBlock.yieldsUpTo_last {tokens : List TokenKind} {body : Block}
    {limit room : Nat} {feed : Feed} {gap : List TokenKind} {kind : TokenKind}
    {more : List TokenKind} (complete : CompletesBlock features demand tokens body)
    (kinds : feed.kinds = tokens ++ (gap ++ kind :: more))
    (within : feed.kinds.length ≤ limit) (isGap : OptionalNewline gap)
    (notNewline : kind ≠ .newline) :
    YieldsUpTo (demand.fits room) (block ⟨features, limit⟩ room) feed body [] gap
      (kind :: more) :=
  complete kinds within (by simp) isGap notNewline

theorem completes_loop {initialTokens conditionTokens stepTokens bodyTokens : List TokenKind}
    {initial step : Statement} {condition : Option Expr} {body : Block}
    {initialDemand conditionDemand stepDemand bodyDemand : Demand}
    (allowed : Feature.loop ∈ features)
    (bodyHead : bodyTokens.head? = some (.symbol .leftBrace))
    (initialComplete :
      CompletesStatement features initialDemand initialTokens (.headerPart initial))
    (conditionComplete :
      CompletesStatement features conditionDemand conditionTokens (.headerCondition condition))
    (stepComplete : CompletesStatement features stepDemand stepTokens (.headerPart step))
    (bodyComplete : CompletesBlock features bodyDemand bodyTokens body) :
    CompletesStatement features
      (initialDemand.and (conditionDemand.and (stepDemand.and bodyDemand)))
      (.keyword .forLoop :: (initialTokens ++ .symbol .semicolon ::
        (conditionTokens ++ .symbol .semicolon :: (stepTokens ++ bodyTokens))))
      (.bare (.loop initial condition step body)) := by
  intro limit room feed gap kind more kinds within isGap ends
  obtain ⟨bodyRest, rfl⟩ := List.head?_eq_some_iff.mp bodyHead
  simp only [List.cons_append, List.append_assoc] at kinds
  unfold YieldsUpTo Yields bareStatement
  rw [peek_bind, Feed.current_of_kinds kinds]
  simp only [if_pos allowed]
  refine (yields_expect kinds (by simp)).passUpTo fun afterKeyword keywordKinds => ?_
  refine (initialComplete (.inl rfl) keywordKinds (by grind)).bindUpTo
    fun afterInitial initialKinds => ?_
  refine (yields_expect initialKinds (by simp)).passUpTo fun afterFirst firstKinds => ?_
  refine (conditionComplete firstKinds (by grind)).bindUpTo
    fun afterCondition conditionKinds => ?_
  refine (yields_expect conditionKinds (by simp)).passUpTo fun afterSecond secondKinds => ?_
  refine (stepComplete (.inr rfl) secondKinds (by grind)).bindUpTo
    fun afterStep stepKinds => ?_
  exact (bodyComplete.yieldsUpTo_last stepKinds (by grind) isGap ends.ne_newline).close
    fun left afterBody _ bodyKinds => .ofPure bodyKinds

/-! ## Chains of conditions -/

theorem completes_noElseIf : CompletesStatement features .nothing [] (.elseIfs []) := by
  intro limit room count feed tail gap kind more kinds _ _ _ noElseIf isGap ends
  apply Yields.upTo
  rw [List.nil_append] at kinds
  cases count with
  | zero => exact .ofPure kinds
  | succ count =>
      have notFound : feed.current.kind ≠ .keyword .elseIf := by
        cases tail with
        | nil =>
            obtain ⟨first, later, afterKinds, _, _, notElseIf, _⟩ :=
              ends.exists_after_gap isGap more
            rw [Feed.current_of_kinds (kinds.trans afterKinds)]
            exact notElseIf
        | cons next tail =>
            rw [Feed.current_of_kinds kinds]
            simpa using noElseIf
      unfold Yields elseIfBranches
      rw [peek_bind, if_neg (fun found => notFound found.1)]
      exact Yields.ofPure kinds

/-- What stands after the block of a branch: the next branch, or what stands
after all of them. -/
theorem Derives.head?_elseIfs_append {restTokens tail : List TokenKind}
    {branches : List Branch} (derived : Derives features restTokens (.elseIfs branches))
    (noNewline : tail.head? ≠ some .newline) :
    (restTokens ++ tail).head? ≠ some .newline := by
  cases derived with
  | noElseIf => exact noNewline
  | elseIf => simp

/-- A condition with its block leaves what stands after the block. -/
theorem yieldsUpTo_branch {conditionTokens bodyTokens tail gap : List TokenKind}
    {condition : Expr} {body : Block} {limit room : Nat} {feed : Feed} {kind : TokenKind}
    {more : List TokenKind} {testDemand bodyDemand : Demand}
    (testComplete : Completes features testDemand conditionTokens (.expression 1 condition))
    (bodyHead : bodyTokens.head? = some (.symbol .leftBrace))
    (bodyComplete : CompletesBlock features bodyDemand bodyTokens body)
    (kinds : feed.kinds = conditionTokens ++ (bodyTokens ++ (tail ++ (gap ++ kind :: more))))
    (within : feed.kinds.length ≤ limit) (noNewline : tail.head? ≠ some .newline)
    (isGap : OptionalNewline gap) (notNewline : kind ≠ .newline) :
    YieldsUpTo (testDemand.fits room ∧ bodyDemand.fits room)
      (branch (expression ⟨features, limit⟩ room) (block ⟨features, limit⟩ room)) feed
      (.mk condition body) tail gap (kind :: more) := by
  obtain ⟨bodyRest, rfl⟩ := List.head?_eq_some_iff.mp bodyHead
  rw [List.cons_append] at kinds
  refine (testComplete.yields_expression kinds within (by decide)).bindUpTo
    fun afterCondition conditionKinds => ?_
  exact (bodyComplete conditionKinds (by grind) noNewline isGap notNewline).close
    fun left afterBody _ bodyKinds => .ofPure bodyKinds

theorem completes_elseIf {conditionTokens bodyTokens restTokens : List TokenKind}
    {condition : Expr} {body : Block} {branches : List Branch}
    {testDemand bodyDemand restDemand : Demand}
    (allowed : Feature.elseIf ∈ features)
    (testComplete : Completes features testDemand conditionTokens (.expression 1 condition))
    (bodyHead : bodyTokens.head? = some (.symbol .leftBrace))
    (restDerived : Derives features restTokens (.elseIfs branches))
    (bodyComplete : CompletesBlock features bodyDemand bodyTokens body)
    (restComplete : CompletesStatement features restDemand restTokens (.elseIfs branches)) :
    CompletesStatement features ((testDemand.and bodyDemand).and restDemand)
      (.keyword .elseIf :: (conditionTokens ++ (bodyTokens ++ restTokens)))
      (.elseIfs (.mk condition body :: branches)) := by
  intro limit room count feed tail gap kind more kinds within enough noNewline noElseIf isGap ends
  cases count with
  | zero =>
      have := one_le_length_kinds feed
      omega
  | succ count =>
      have keywordFirst : feed.kinds = .keyword .elseIf :: (conditionTokens ++ (bodyTokens ++
          ((restTokens ++ tail) ++ (gap ++ kind :: more)))) := by
        rw [kinds]
        simp
      unfold YieldsUpTo Yields elseIfBranches
      rw [peek_bind, if_pos ⟨Feed.current_of_kinds keywordFirst, allowed⟩]
      refine (yields_advance keywordFirst (by simp)).passUpTo
        fun afterKeyword keywordKinds => ?_
      refine (yieldsUpTo_branch testComplete bodyHead bodyComplete keywordKinds (by grind)
        (Derives.head?_elseIfs_append restDerived noNewline) isGap ends.ne_newline).bind
          fun left afterFirst leaves firstKinds => ?_
      rw [List.append_assoc] at firstKinds
      have shorter : left.length ≤ gap.length := by
        rcases leaves with rfl | rfl <;> simp
      exact (restComplete firstKinds (by grind) (by grind) noNewline noElseIf
        (optionalNewline_of_left leaves isGap) ends).close
          fun left afterRest _ restKinds => .ofPure restKinds

theorem completes_choose {conditionTokens bodyTokens restTokens otherwiseTokens : List TokenKind}
    {condition : Expr} {body otherwise : Block} {branches : List Branch}
    {testDemand bodyDemand restDemand lastDemand : Demand}
    (allowed : Feature.conditional ∈ features)
    (testComplete : Completes features testDemand conditionTokens (.expression 1 condition))
    (bodyHead : bodyTokens.head? = some (.symbol .leftBrace))
    (restDerived : Derives features restTokens (.elseIfs branches))
    (bodyComplete : CompletesBlock features bodyDemand bodyTokens body)
    (restComplete : CompletesStatement features restDemand restTokens (.elseIfs branches))
    (lastComplete : CompletesStatement features lastDemand otherwiseTokens
      (.otherwise otherwise)) :
    CompletesStatement features ((testDemand.and bodyDemand).and (restDemand.and lastDemand))
      (.keyword .ifThen ::
        (conditionTokens ++ (bodyTokens ++ (restTokens ++ otherwiseTokens))))
      (.bare (.choose (.mk condition body :: branches) otherwise)) := by
  intro limit room feed gap kind more kinds within isGap ends
  have noNewline : otherwiseTokens.head? ≠ some .newline ∧
      otherwiseTokens.head? ≠ some (.keyword .elseIf) := by
    rcases lastComplete with ⟨rfl, _⟩ | ⟨_, rfl, _⟩ <;> simp
  have keywordFirst : feed.kinds = .keyword .ifThen :: (conditionTokens ++ (bodyTokens ++
      ((restTokens ++ otherwiseTokens) ++ (gap ++ kind :: more)))) := by
    rw [kinds]
    simp
  unfold YieldsUpTo Yields bareStatement
  rw [peek_bind, Feed.current_of_kinds keywordFirst]
  simp only [if_pos allowed]
  refine (yields_expect keywordFirst (by simp)).passUpTo fun afterKeyword keywordKinds => ?_
  refine (yieldsUpTo_branch testComplete bodyHead bodyComplete keywordKinds (by grind)
    (Derives.head?_elseIfs_append restDerived noNewline.1) isGap ends.ne_newline).bind
      fun left afterFirst leaves firstKinds => ?_
  rw [List.append_assoc] at firstKinds
  have isLeft := optionalNewline_of_left leaves isGap
  have shorter : left.length ≤ gap.length := by
    rcases leaves with rfl | rfl <;> simp
  refine (restComplete firstKinds (by grind) (by grind) noNewline.1 noNewline.2 isLeft
    ends).bind fun left' afterRest leaves' restKinds => ?_
  have isLeft' := optionalNewline_of_left leaves' isLeft
  have shorter' : left'.length ≤ left.length := by
    rcases leaves' with rfl | rfl <;> simp
  rcases lastComplete with ⟨rfl, rfl, rfl⟩ | ⟨blockTokens, rfl, blockComplete⟩
  · obtain ⟨first, later, afterKinds, _, _, _, notOtherwise⟩ :=
      ends.exists_after_gap isLeft' more
    have current := Feed.current_of_kinds (restKinds.trans afterKinds)
    apply Yields.upTo
    unfold Yields
    rw [peek_bind, current, if_neg notOtherwise]
    exact Yields.ofPure restKinds
  · rw [List.cons_append] at restKinds
    unfold YieldsUpTo Yields
    rw [peek_bind, if_pos (Feed.current_of_kinds restKinds)]
    refine (yields_advance restKinds (by simp)).passUpTo fun afterElse elseKinds => ?_
    exact (blockComplete.yieldsUpTo_last elseKinds (by grind) isLeft' ends.ne_newline).close
      fun left'' afterBody _ bodyKinds => .ofPure bodyKinds

/-! ## Declarations and returns -/

theorem yields_parameterNames (names : List String) :
    ∀ {first : String} {count : Nat} {feed : Feed} {rest : List TokenKind},
      feed.kinds = nameTokens (first :: names) ++ .symbol .rightParen :: rest →
      feed.kinds.length ≤ count →
      Yields True (parameterNames count) feed (first :: names) (.symbol .rightParen :: rest) := by
  induction names with
  | nil =>
      intro first count feed rest kinds enough
      cases count with
      | zero =>
          have := one_le_length_kinds feed
          omega
      | succ count =>
          refine (yields_identifier kinds (by simp)).pass fun afterName nameKinds => ?_
          unfold Yields
          rw [peek_bind, Feed.current_of_kinds nameKinds, if_neg (by decide)]
          exact Yields.ofPure nameKinds
  | cons second names inductionHypothesis =>
      intro first count feed rest kinds enough
      cases count with
      | zero =>
          have := one_le_length_kinds feed
          omega
      | succ count =>
          have nameFirst : feed.kinds = .identifier first :: .symbol .comma ::
              (nameTokens (second :: names) ++ .symbol .rightParen :: rest) := by
            rw [kinds]
            simp [nameTokens]
          refine (yields_identifier nameFirst (by simp)).pass fun afterName nameKinds => ?_
          unfold Yields
          rw [peek_bind, if_pos (Feed.current_of_kinds nameKinds)]
          refine (yields_advance nameKinds (by simp)).pass fun afterComma commaKinds => ?_
          exact (inductionHypothesis commaKinds (by grind)).pass fun _ => .ofPure

theorem yields_parameters {grammar : Grammar} {names : List String} {feed : Feed}
    {rest : List TokenKind}
    (kinds : feed.kinds = nameTokens names ++ .symbol .rightParen :: rest)
    (within : feed.kinds.length ≤ grammar.limit) :
    Yields True (parameters grammar) feed names (.symbol .rightParen :: rest) := by
  unfold Yields parameters
  cases names with
  | nil =>
      rw [peek_bind, if_pos (Feed.current_of_kinds kinds)]
      exact Yields.ofPure kinds
  | cons first names =>
      have head : (nameTokens (first :: names)).head? = some (.identifier first) := by
        cases names <;> rfl
      rw [peek_bind, Feed.current_of_head kinds head, if_neg (by simp)]
      exact yields_parameterNames names kinds within

theorem completes_declare {bodyTokens : List TokenKind} {body : Block} (name : String)
    (parameters : List String) (allowed : Feature.function ∈ features)
    (bodyComplete : CompletesBlock features demand bodyTokens body) :
    CompletesStatement features demand
      (.keyword .function :: .identifier name :: .symbol .leftParen ::
        (nameTokens parameters ++ .symbol .rightParen :: bodyTokens))
      (.bare (.declare name parameters body)) := by
  intro limit room feed gap kind more kinds within isGap ends
  simp only [List.cons_append, List.append_assoc] at kinds
  unfold YieldsUpTo Yields bareStatement
  rw [peek_bind, Feed.current_of_kinds kinds]
  simp only [if_pos allowed]
  refine (yields_expect kinds (by simp)).passUpTo fun afterKeyword keywordKinds => ?_
  refine (yields_identifier keywordKinds (by simp)).passUpTo fun afterName nameKinds => ?_
  refine (yields_expect nameKinds (by simp)).passUpTo fun afterOpen openKinds => ?_
  refine (yields_parameters openKinds (by grind)).passUpTo fun afterNames namesKinds => ?_
  refine (yields_expect namesKinds (by simp)).passUpTo fun afterClose closeKinds => ?_
  exact (bodyComplete.yieldsUpTo_last closeKinds (by grind) isGap ends.ne_newline).close
    fun left afterBody _ bodyKinds => .ofPure bodyKinds

theorem completes_giveBack {tokens : List TokenKind} {value : Expr}
    (allowed : Feature.function ∈ features)
    (complete : Completes features demand tokens (.expression 1 value)) :
    CompletesStatement features demand (.keyword .returns :: tokens)
      (.bare (.giveBack value)) := by
  intro limit room feed gap kind more kinds within isGap ends
  obtain ⟨first, later, afterKinds, endsExpression, _⟩ := ends.exists_after_gap isGap more
  apply Yields.upTo
  rw [List.nil_append]
  rw [afterKinds] at kinds ⊢
  rw [List.cons_append] at kinds
  unfold Yields bareStatement
  rw [peek_bind, Feed.current_of_kinds kinds]
  simp only [if_pos allowed]
  refine (yields_expect kinds (by simp)).pass fun afterKeyword keywordKinds => ?_
  exact (complete.yields_expression keywordKinds (by grind) endsExpression).close
    fun _ => .ofPure

/-! ## Statements in order -/

theorem completes_ofAssignment {tokens : List TokenKind} {result : Statement}
    (derived : Derives features tokens (.assignment result))
    (complete : CompletesStatement features demand tokens (.assignment result)) :
    CompletesStatement features demand tokens (.bare result) := by
  intro limit room feed gap kind more kinds within isGap ends
  obtain ⟨first, later, afterKinds, endsExpression, _⟩ := ends.exists_after_gap isGap more
  obtain ⟨name, head⟩ := derived.head?_assignment
  apply Yields.upTo
  rw [List.nil_append]
  rw [afterKinds] at kinds ⊢
  unfold Yields bareStatement
  rw [peek_bind, Feed.current_of_head kinds head]
  exact (complete kinds within endsExpression).2

theorem completes_evaluate {tokens : List TokenKind} {expr : Expr} {name : String}
    (derived : ExprForm.Derives features tokens (.expression 1 expr))
    (complete : Completes features demand tokens (.expression 1 expr))
    (head : tokens.head? = some (.identifier name)) :
    CompletesStatement features demand tokens (.bare (.evaluate expr)) := by
  intro limit room feed gap kind more kinds within isGap ends
  obtain ⟨first, later, afterKinds, endsExpression, notAssign, _⟩ :=
    ends.exists_after_gap isGap more
  apply Yields.upTo
  rw [List.nil_append]
  rw [afterKinds] at kinds ⊢
  unfold Yields bareStatement
  rw [peek_bind, Feed.current_of_head kinds head]
  exact yields_assignmentOrExpression_evaluate derived complete head kinds within endsExpression
    notAssign

/-- The line feed after a statement is taken by its last block or by the
statement itself. -/
theorem completes_ofBare {tokens ending : List TokenKind} {result : Statement}
    (complete : CompletesStatement features demand tokens (.bare result))
    (endsLine : OptionalNewline ending) :
    CompletesStatement features demand (tokens ++ ending) (.statement result) := by
  intro limit room feed kind more kinds within ends
  rw [List.append_assoc] at kinds
  obtain ⟨left, leaves, yields⟩ := complete kinds within endsLine ends
  refine yields.close fun afterBare bareKinds => ?_
  have skipped : Yields True skipNewline afterBare () (kind :: more) := by
    rcases optionalNewline_of_left leaves endsLine with rfl | rfl
    · exact yields_skipNewline_absent bareKinds ends.ne_newline
    · exact yields_skipNewline_present bareKinds (by simp)
  exact skipped.pass fun _ => .ofPure

theorem completes_noStatement : CompletesStatement features .nothing [] (.statements []) := by
  intro limit room count feed more _ enough
  cases count with
  | zero =>
      have := one_le_length_kinds feed
      omega
  | succ count =>
      constructor
      · intro kinds
        unfold Yields statementsInBlock
        rw [peek_bind, Feed.current_of_kinds kinds]
        exact Yields.ofPure kinds
      · intro kinds
        unfold Yields statementsToEnd
        rw [peek_bind, if_pos (Feed.current_of_kinds kinds)]
        exact Yields.ofPure kinds

/-- What stands after the first of some statements can end it. -/
theorem exists_endsStatement_of_statements {tokens : List TokenKind} {body : Block}
    (derived : Derives features tokens (.statements body)) {kind : TokenKind}
    (ends : EndsStatement kind) (more : List TokenKind) :
    ∃ first later, tokens ++ kind :: more = first :: later ∧ EndsStatement first := by
  cases derived with
  | noStatement => exact ⟨kind, more, rfl, ends⟩
  | nextStatement first rest =>
      obtain ⟨leading, head, starts⟩ := first.head?_statement
      obtain ⟨later, rfl⟩ := List.head?_eq_some_iff.mp head
      exact ⟨leading, _, rfl, .inr (.inr starts)⟩

/-- At a token that starts a statement, a block goes on with that statement. -/
theorem statementsInBlock_of_starts {statement : Parser Feed Statement} {count : Nat} {feed : Feed}
    (starts : startsStatement feed.current.kind = true) :
    statementsInBlock statement (count + 1) feed =
      (do
        let first ← statement
        let rest ← statementsInBlock statement count
        return first :: rest : Parser Feed Block) feed := by
  rw [statementsInBlock, peek_bind]
  generalize feed.current.kind = kind at starts
  unfold startsStatement at starts
  split at starts
  · rfl
  · rfl
  · rfl
  · rfl
  · rfl
  · cases starts

theorem completes_nextStatement {firstTokens restTokens : List TokenKind} {result : Statement}
    {body : Block} {firstDemand restDemand : Demand}
    (firstDerived : Derives features firstTokens (.statement result))
    (restDerived : Derives features restTokens (.statements body))
    (firstComplete : CompletesStatement features firstDemand firstTokens (.statement result))
    (restComplete : CompletesStatement features restDemand restTokens (.statements body)) :
    CompletesStatement features (firstDemand.and restDemand) (firstTokens ++ restTokens)
      (.statements (result :: body)) := by
  intro limit room count feed more within enough
  obtain ⟨leading, head, starts⟩ := firstDerived.head?_statement
  have some := firstDerived.length_pos
  cases count with
  | zero =>
      have := one_le_length_kinds feed
      omega
  | succ count =>
      constructor
      · intro kinds
        rw [List.append_assoc] at kinds
        have current := Feed.current_of_head kinds head
        obtain ⟨next, later, nextKinds, ends⟩ :=
          exists_endsStatement_of_statements restDerived (.inr (.inl rfl)) more
        unfold Yields
        rw [statementsInBlock_of_starts (current ▸ starts)]
        refine (firstComplete (nextKinds ▸ kinds) within ends).bind
          fun afterFirst firstKinds => ?_
        rw [← nextKinds] at firstKinds
        exact ((restComplete (by grind) (by grind)).1 firstKinds).close fun _ => .ofPure
      · intro kinds
        rw [List.append_assoc] at kinds
        have current := Feed.current_of_head kinds head
        obtain ⟨next, later, nextKinds, ends⟩ :=
          exists_endsStatement_of_statements restDerived (.inl rfl) more
        have notEnd : feed.current.kind ≠ .endOfInput := by
          rw [current]
          rintro rfl
          cases starts
        unfold Yields statementsToEnd
        rw [peek_bind, if_neg notEnd]
        refine (firstComplete (nextKinds ▸ kinds) within ends).bind
          fun afterFirst firstKinds => ?_
        rw [← nextKinds] at firstKinds
        exact ((restComplete (by grind) (by grind)).2 firstKinds).close fun _ => .ofPure

theorem yields_skipNewline_gap {feed : Feed} {gap rest : List TokenKind} {kind : TokenKind}
    (kinds : feed.kinds = gap ++ kind :: rest) (isGap : OptionalNewline gap)
    (notNewline : kind ≠ .newline) : Yields True skipNewline feed () (kind :: rest) := by
  rcases isGap with rfl | rfl
  · exact yields_skipNewline_absent kinds notNewline
  · exact yields_skipNewline_present kinds (by simp)

/-- After a closing brace the parser takes the first line feed in sight, be it
the block's own or the gap's. -/
theorem yieldsUpTo_skipNewline {feed : Feed} {ending tail gap more : List TokenKind}
    {kind : TokenKind} (kinds : feed.kinds = ending ++ (tail ++ (gap ++ kind :: more)))
    (ends : OptionalNewline ending) (noNewline : tail.head? ≠ some .newline)
    (isGap : OptionalNewline gap) (notNewline : kind ≠ .newline) :
    YieldsUpTo True skipNewline feed () tail gap (kind :: more) := by
  rcases ends with rfl | rfl
  · cases tail with
    | nil => exact ⟨[], .inl rfl, yields_skipNewline_gap kinds isGap notNewline⟩
    | cons first tail =>
        exact (yields_skipNewline_absent kinds (by simpa using noNewline)).upTo
  · have taken : Yields True skipNewline feed () (tail ++ (gap ++ kind :: more)) :=
      yields_skipNewline_present kinds (by simp)
    exact taken.upTo

theorem completes_braces {opening tokens ending : List TokenKind} {body : Block}
    (opens : OptionalNewline opening)
    (derived : Derives features tokens (.statements body))
    (ends : OptionalNewline ending)
    (complete : CompletesStatement features demand tokens (.statements body)) :
    CompletesBlock features demand.inside
      (.symbol .leftBrace :: (opening ++ (tokens ++ .symbol .rightBrace :: ending))) body := by
  intro limit room feed tail gap kind more kinds within noNewline isGap notNewline
  cases room with
  | zero => exact ⟨[], .inl rfl, yields_tooDeep not_false⟩
  | succ room =>
      simp only [List.cons_append, List.append_assoc] at kinds
      obtain ⟨next, later, nextKinds, nextEnds⟩ :=
        exists_endsStatement_of_statements derived (.inr (.inl rfl))
          (ending ++ (tail ++ (gap ++ kind :: more)))
      refine YieldsUpTo.of_iff ?_ (show demand.fits room ∧ True ↔ demand.fits room by simp)
      refine (yields_expect kinds (by simp)).passUpTo fun afterOpen openKinds => ?_
      rw [nextKinds] at openKinds
      refine (yields_skipNewline_gap openKinds opens nextEnds.ne_newline).passUpTo
        fun afterOpening openingKinds => ?_
      rw [← nextKinds] at openingKinds
      refine ((complete (by grind) (by grind)).1 openingKinds).bindUpTo
        fun afterStatements statementKinds => ?_
      refine (yields_advance statementKinds (by simp)).passUpTo fun afterClose closeKinds => ?_
      exact (yieldsUpTo_skipNewline closeKinds ends noNewline isGap notNewline).close
        fun left afterEnding _ endingKinds => .ofPure endingKinds

theorem head?_block {tokens : List TokenKind} {body : Block}
    (derived : Derives features tokens (.block body)) :
    tokens.head? = some (.symbol .leftBrace) := by
  cases derived with
  | braces => rfl

/-- The parser completes every derivation in the rooms that it fits in, and these
are the same whichever of the line feeds are left out. -/
theorem exists_completesStatement {tokens : List TokenKind} {form : StatementForm}
    (derived : Derives features tokens form) :
    ∃ demand, ∀ ⦃fewer : List TokenKind⦄, DropsNewlines tokens fewer →
      Derives features fewer form ∧ CompletesStatement features demand fewer form := by
  induction derived with
  | assign name second =>
      obtain ⟨_, complete, _⟩ := exists_completes second
      apply Exists.intro
      intro fewer drops
      obtain rfl := drops.eq_of_not_mem (by simp [second.newline_not_mem])
      exact ⟨.assign name second, completes_assignment (completes_name name) complete rfl⟩
  | store first second =>
      obtain ⟨_, firstComplete, _⟩ := exists_completes first
      obtain ⟨_, secondComplete, _⟩ := exists_completes second
      apply Exists.intro
      intro fewer drops
      obtain rfl := drops.eq_of_not_mem (by simp [first.newline_not_mem, second.newline_not_mem])
      exact ⟨.store first second, completes_assignment firstComplete secondComplete rfl⟩
  | noPart =>
      apply Exists.intro
      intro fewer drops
      obtain rfl := drops.eq_nil
      exact ⟨.noPart, completes_noPart⟩
  | somePart _ part =>
      obtain ⟨_, part⟩ := part
      apply Exists.intro
      intro fewer drops
      obtain ⟨derived, complete⟩ := part drops
      exact ⟨.somePart derived, completes_somePart derived complete⟩
  | noCondition =>
      apply Exists.intro
      intro fewer drops
      obtain rfl := drops.eq_nil
      exact ⟨.noCondition, completes_noCondition⟩
  | someCondition found =>
      obtain ⟨_, complete, _⟩ := exists_completes found
      apply Exists.intro
      intro fewer drops
      obtain rfl := drops.eq_of_not_mem found.newline_not_mem
      exact ⟨.someCondition found, completes_someCondition found complete⟩
  | noElseIf =>
      apply Exists.intro
      intro fewer drops
      obtain rfl := drops.eq_nil
      exact ⟨.noElseIf, completes_noElseIf⟩
  | elseIf allowed test _ _ guarded rest =>
      obtain ⟨_, testComplete, _⟩ := exists_completes test
      obtain ⟨_, guarded⟩ := guarded
      obtain ⟨_, rest⟩ := rest
      apply Exists.intro
      intro fewer drops
      obtain ⟨_, rfl, afterKeyword⟩ := drops.of_cons (by simp)
      obtain ⟨_, _, rfl, testDrops, afterTest⟩ := afterKeyword.of_append
      obtain rfl := testDrops.eq_of_not_mem test.newline_not_mem
      obtain ⟨_, _, rfl, guardedDrops, restDrops⟩ := afterTest.of_append
      obtain ⟨guardedDerived, guardedComplete⟩ := guarded guardedDrops
      obtain ⟨restDerived, restComplete⟩ := rest restDrops
      exact ⟨.elseIf allowed test guardedDerived restDerived,
        completes_elseIf allowed testComplete (head?_block guardedDerived) restDerived
          guardedComplete restComplete⟩
  | noOtherwise =>
      apply Exists.intro
      intro fewer drops
      obtain rfl := drops.eq_nil
      exact ⟨.noOtherwise, .inl ⟨rfl, rfl, rfl⟩⟩
  | someOtherwise _ found =>
      obtain ⟨_, found⟩ := found
      apply Exists.intro
      intro fewer drops
      obtain ⟨_, rfl, blockDrops⟩ := drops.of_cons (by simp)
      obtain ⟨derived, complete⟩ := found blockDrops
      exact ⟨.someOtherwise derived, .inr ⟨_, rfl, complete⟩⟩
  | ofAssignment _ assigned =>
      obtain ⟨_, assigned⟩ := assigned
      apply Exists.intro
      intro fewer drops
      obtain ⟨derived, complete⟩ := assigned drops
      exact ⟨.ofAssignment derived, completes_ofAssignment derived complete⟩
  | evaluate evaluated head =>
      obtain ⟨_, complete, _⟩ := exists_completes evaluated
      apply Exists.intro
      intro fewer drops
      obtain rfl := drops.eq_of_not_mem evaluated.newline_not_mem
      exact ⟨.evaluate evaluated head, completes_evaluate evaluated complete head⟩
  | choose allowed test _ _ _ guarded rest last =>
      obtain ⟨_, testComplete, _⟩ := exists_completes test
      obtain ⟨_, guarded⟩ := guarded
      obtain ⟨_, rest⟩ := rest
      obtain ⟨_, last⟩ := last
      apply Exists.intro
      intro fewer drops
      obtain ⟨_, rfl, afterKeyword⟩ := drops.of_cons (by simp)
      obtain ⟨_, _, rfl, testDrops, afterTest⟩ := afterKeyword.of_append
      obtain rfl := testDrops.eq_of_not_mem test.newline_not_mem
      obtain ⟨_, _, rfl, guardedDrops, afterGuarded⟩ := afterTest.of_append
      obtain ⟨_, _, rfl, restDrops, lastDrops⟩ := afterGuarded.of_append
      obtain ⟨guardedDerived, guardedComplete⟩ := guarded guardedDrops
      obtain ⟨restDerived, restComplete⟩ := rest restDrops
      obtain ⟨lastDerived, lastComplete⟩ := last lastDrops
      exact ⟨.choose allowed test guardedDerived restDerived lastDerived,
        completes_choose allowed testComplete (head?_block guardedDerived) restDerived
          guardedComplete restComplete lastComplete⟩
  | loop allowed _ _ _ _ first test last repeated =>
      obtain ⟨_, first⟩ := first
      obtain ⟨_, test⟩ := test
      obtain ⟨_, last⟩ := last
      obtain ⟨_, repeated⟩ := repeated
      apply Exists.intro
      intro fewer drops
      obtain ⟨_, rfl, afterKeyword⟩ := drops.of_cons (by simp)
      obtain ⟨_, _, rfl, firstDrops, afterFirst⟩ := afterKeyword.of_append
      obtain ⟨_, rfl, testOnward⟩ := afterFirst.of_cons (by simp)
      obtain ⟨_, _, rfl, testDrops, afterTest⟩ := testOnward.of_append
      obtain ⟨_, rfl, lastOnward⟩ := afterTest.of_cons (by simp)
      obtain ⟨_, _, rfl, lastDrops, repeatedDrops⟩ := lastOnward.of_append
      obtain ⟨firstDerived, firstComplete⟩ := first firstDrops
      obtain ⟨testDerived, testComplete⟩ := test testDrops
      obtain ⟨lastDerived, lastComplete⟩ := last lastDrops
      obtain ⟨repeatedDerived, repeatedComplete⟩ := repeated repeatedDrops
      exact ⟨.loop allowed firstDerived testDerived lastDerived repeatedDerived,
        completes_loop allowed (head?_block repeatedDerived) firstComplete testComplete
          lastComplete repeatedComplete⟩
  | declare name parameters allowed _ called =>
      obtain ⟨_, called⟩ := called
      apply Exists.intro
      intro fewer drops
      obtain ⟨_, rfl, afterKeyword⟩ := drops.of_cons (by simp)
      obtain ⟨_, rfl, afterName⟩ := afterKeyword.of_cons (by simp)
      obtain ⟨_, rfl, namesOnward⟩ := afterName.of_cons (by simp)
      obtain ⟨_, _, rfl, namesDrops, afterNames⟩ := namesOnward.of_append
      obtain rfl := namesDrops.eq_of_not_mem (newline_not_mem_nameTokens parameters)
      obtain ⟨_, rfl, calledDrops⟩ := afterNames.of_cons (by simp)
      obtain ⟨calledDerived, calledComplete⟩ := called calledDrops
      exact ⟨.declare name parameters allowed calledDerived,
        completes_declare name parameters allowed calledComplete⟩
  | giveBack allowed returned =>
      obtain ⟨_, complete, _⟩ := exists_completes returned
      apply Exists.intro
      intro fewer drops
      obtain rfl := drops.eq_of_not_mem (by simp [returned.newline_not_mem])
      exact ⟨.giveBack allowed returned, completes_giveBack allowed complete⟩
  | ofBare _ ends bare =>
      obtain ⟨_, bare⟩ := bare
      apply Exists.intro
      intro fewer drops
      obtain ⟨_, _, rfl, bareDrops, endDrops⟩ := drops.of_append
      obtain ⟨derived, complete⟩ := bare bareDrops
      have stillEnds := endDrops.optionalNewline ends
      exact ⟨.ofBare derived stillEnds, completes_ofBare complete stillEnds⟩
  | noStatement =>
      apply Exists.intro
      intro fewer drops
      obtain rfl := drops.eq_nil
      exact ⟨.noStatement, completes_noStatement⟩
  | nextStatement _ _ first rest =>
      obtain ⟨_, first⟩ := first
      obtain ⟨_, rest⟩ := rest
      apply Exists.intro
      intro fewer drops
      obtain ⟨_, _, rfl, firstDrops, restDrops⟩ := drops.of_append
      obtain ⟨firstDerived, firstComplete⟩ := first firstDrops
      obtain ⟨restDerived, restComplete⟩ := rest restDrops
      exact ⟨.nextStatement firstDerived restDerived,
        completes_nextStatement firstDerived restDerived firstComplete restComplete⟩
  | braces opens _ ends inner =>
      obtain ⟨_, inner⟩ := inner
      apply Exists.intro
      intro fewer drops
      obtain ⟨_, rfl, afterBrace⟩ := drops.of_cons (by simp)
      obtain ⟨_, _, rfl, openDrops, afterOpening⟩ := afterBrace.of_append
      obtain ⟨_, _, rfl, innerDrops, afterInner⟩ := afterOpening.of_append
      obtain ⟨_, rfl, endDrops⟩ := afterInner.of_cons (by simp)
      obtain ⟨derived, complete⟩ := inner innerDrops
      have stillOpens := openDrops.optionalNewline opens
      have stillEnds := endDrops.optionalNewline ends
      exact ⟨.braces stillOpens derived stillEnds,
        completes_braces stillOpens derived stillEnds complete⟩

/-- The parser accepts a program if its statements fit in the room that there is,
and else meets the nesting limit. -/
theorem yields_program {limit : Nat} {feed : Feed} {opening tokens : List TokenKind}
    {body : Block} (opens : OptionalNewline opening)
    (derived : Derives features tokens (.statements body))
    (complete : CompletesStatement features demand tokens (.statements body))
    (kinds : feed.kinds = opening ++ (tokens ++ [.endOfInput]))
    (within : feed.kinds.length ≤ limit) :
    Yields (demand.fits maxNesting) (program ⟨features, limit⟩) feed body [.endOfInput] := by
  obtain ⟨next, later, nextKinds, nextEnds⟩ :=
    exists_endsStatement_of_statements derived (.inl rfl) []
  rw [nextKinds] at kinds
  refine (yields_skipNewline_gap kinds opens nextEnds.ne_newline).pass
    fun afterOpening openingKinds => ?_
  rw [← nextKinds] at openingKinds
  have openingWithin : afterOpening.kinds.length ≤ limit := by
    rw [openingKinds, nextKinds]
    rw [kinds, List.length_append] at within
    omega
  exact (complete openingWithin openingWithin).2 openingKinds

end Forms

end Parser

end Scriptlet
