import Scriptlet.Proofs.Grammar.Program
import Scriptlet.Proofs.Parser.Soundness.Expression

/-!
Contract: every program that the parser accepts is derived from its tokens.

Owns one soundness lemma for each parser of statements, given the soundness of
expressions and blocks, and their closure by induction on `room`.
-/

namespace Scriptlet

namespace Parser

open StatementForm

theorem length_kinds_of_cons {feed final : Feed} {kind : TokenKind}
    (taken : feed.kinds = kind :: final.kinds) :
    feed.kinds.length = final.kinds.length + 1 := by
  rw [taken, List.length_cons]

theorem skipNewline_sound {feed final : Feed} {result : Unit}
    (success : skipNewline feed = .ok (result, final)) :
    ∃ gap, OptionalNewline gap ∧ feed.kinds = gap ++ final.kinds := by
  rcases skipNewline_eq_ok success with same | passed
  · exact ⟨[], .inl rfl, same⟩
  · exact ⟨[.newline], .inr rfl, passed⟩

theorem invalidStart_ne_ok {α : Type} {feed final : Feed} {result : α} :
    invalidStart feed ≠ .ok (result, final) := nofun

section Pieces

variable {grammar : Grammar} {expression : Parser Feed Expr} {block : Parser Feed Block}

/-! ## Assignments and expressions -/

/-- A target that is accepted makes an assignment with the value after it. -/
theorem assignment_sound {target value : Expr} {statement : Statement} {feed final : Feed}
    {targetTokens valueTokens : List TokenKind}
    (targetDerived : ExprForm.Derives grammar.features targetTokens (.place target))
    (valueDerived : ExprForm.Derives grammar.features valueTokens (.expression 1 value))
    (success : assignment target value feed = .ok (statement, final)) :
    feed = final ∧ Derives grammar.features (targetTokens ++ .symbol .assign :: valueTokens)
      (.assignment statement) := by
  unfold assignment at success
  cases targetDerived with
  | name name =>
      obtain ⟨rfl, rfl⟩ := pure_eq_ok.mp success
      exact ⟨rfl, .assign name valueDerived⟩
  | call => cases success
  | index allowed base offset =>
      obtain ⟨rfl, rfl⟩ := pure_eq_ok.mp success
      exact ⟨rfl, .store (.index allowed base offset) valueDerived⟩

variable
  (inner : Sound grammar.limit expression
    fun tokens expr => ExprForm.Derives grammar.features tokens (.expression 1 expr))
  (nested : Sound grammar.limit block
    fun tokens body => Derives grammar.features tokens (.block body))

include inner in
theorem assignmentOrExpression_sound {name : String} {feed final : Feed} {result : Statement}
    (starts : feed.current.kind = .identifier name)
    (within : feed.kinds.length ≤ grammar.limit)
    (success : assignmentOrExpression grammar expression feed = .ok (result, final)) :
    ∃ tokens, feed.kinds = tokens ++ final.kinds ∧
      Derives grammar.features tokens (.bare result) := by
  rw [assignmentOrExpression, mark_bind] at success
  obtain ⟨target, afterTarget, parsedTarget, continued⟩ := bind_eq_ok.mp success
  rw [peek_bind, if_apply] at continued
  split at continued
  · next assigns =>
      rw [unmark_bind] at continued
      obtain ⟨_, afterSign, advanced, continued⟩ := bind_eq_ok.mp continued
      obtain ⟨value, afterValue, parsedValue, continued⟩ := bind_eq_ok.mp continued
      obtain ⟨targetTokens, takenTarget, targetDerived⟩ :=
        place_sound inner within parsedTarget
      have targetShorter := length_kinds_of_take takenTarget
      have passed := advance_eq_ok advanced
      have signShorter := length_kinds_of_cons passed
      obtain ⟨valueTokens, takenValue, valueDerived⟩ := inner (by omega) parsedValue
      obtain ⟨rfl, derived⟩ := assignment_sound targetDerived valueDerived continued
      refine ⟨_, ?_, .ofAssignment derived⟩
      rw [takenTarget, passed, assigns, takenValue]
      simp
  · rw [rewind_bind] at continued
    obtain ⟨expr, afterExpr, parsed, returned⟩ := bind_eq_ok.mp continued
    obtain ⟨rfl, rfl⟩ := pure_eq_ok.mp returned
    obtain ⟨tokens, taken, derived⟩ := inner within parsed
    obtain ⟨first, head, _⟩ := derived.startsAs
    have feedHead := ExprForm.head?_append_of_head? head afterExpr.kinds
    rw [← taken, Feed.kinds, List.head?_cons, starts] at feedHead
    exact ⟨tokens, taken, .evaluate derived (head.trans feedHead.symm)⟩

include inner in
theorem assignmentOnly_sound :
    Sound grammar.limit (assignmentOnly grammar expression)
      fun tokens statement => Derives grammar.features tokens (.assignment statement) := by
  intro feed final result within success
  obtain ⟨target, afterTarget, parsedTarget, continued⟩ := bind_eq_ok.mp success
  obtain ⟨_, afterSign, expected, continued⟩ := bind_eq_ok.mp continued
  obtain ⟨value, afterValue, parsedValue, continued⟩ := bind_eq_ok.mp continued
  obtain ⟨targetTokens, takenTarget, targetDerived⟩ := place_sound inner within parsedTarget
  have targetShorter := length_kinds_of_take takenTarget
  have passed := expect_eq_ok expected
  have signShorter := length_kinds_of_cons passed
  obtain ⟨valueTokens, takenValue, valueDerived⟩ := inner (by omega) parsedValue
  obtain ⟨rfl, derived⟩ := assignment_sound targetDerived valueDerived continued
  refine ⟨_, ?_, derived⟩
  rw [takenTarget, passed, takenValue]
  simp

include inner in
theorem giveBack_sound (allowed : Feature.function ∈ grammar.features) :
    Sound grammar.limit (giveBack expression)
      fun tokens statement => Derives grammar.features tokens (.bare statement) := by
  intro feed final result within success
  obtain ⟨_, afterKeyword, expected, continued⟩ := bind_eq_ok.mp success
  obtain ⟨value, _, parsed, returned⟩ := bind_eq_ok.mp continued
  obtain ⟨rfl, rfl⟩ := pure_eq_ok.mp returned
  have passed := expect_eq_ok expected
  have keywordShorter := length_kinds_of_cons passed
  obtain ⟨tokens, taken, derived⟩ := inner (by omega) parsed
  refine ⟨_, ?_, .giveBack allowed derived⟩
  rw [passed, taken, List.cons_append]

/-! ## Chains of conditions -/

include inner nested in
theorem branch_sound :
    Sound grammar.limit (branch expression block) fun tokens found =>
      ∃ conditionTokens bodyTokens condition body, tokens = conditionTokens ++ bodyTokens ∧
        found = .mk condition body ∧
        ExprForm.Derives grammar.features conditionTokens (.expression 1 condition) ∧
        Derives grammar.features bodyTokens (.block body) := by
  intro feed final result within success
  obtain ⟨condition, afterCondition, parsedCondition, continued⟩ := bind_eq_ok.mp success
  obtain ⟨body, _, parsedBody, returned⟩ := bind_eq_ok.mp continued
  obtain ⟨rfl, rfl⟩ := pure_eq_ok.mp returned
  obtain ⟨conditionTokens, takenCondition, test⟩ := inner within parsedCondition
  have conditionShorter := length_kinds_of_take takenCondition
  obtain ⟨bodyTokens, takenBody, guarded⟩ := nested (by omega) parsedBody
  refine ⟨_, ?_, conditionTokens, bodyTokens, condition, body, rfl, rfl, test, guarded⟩
  rw [takenCondition, takenBody, List.append_assoc]

include inner nested in
theorem elseIfBranches_sound (count : Nat) :
    Sound grammar.limit (elseIfBranches grammar expression block count)
      fun tokens branches => Derives grammar.features tokens (.elseIfs branches) := by
  induction count with
  | zero =>
      intro feed final branches _ success
      obtain ⟨rfl, rfl⟩ := pure_eq_ok.mp success
      exact ⟨[], rfl, .noElseIf⟩
  | succ count inductionHypothesis =>
      intro feed final branches within success
      rw [elseIfBranches, peek_bind, if_apply] at success
      split at success
      · next found =>
          obtain ⟨_, afterKeyword, advanced, continued⟩ := bind_eq_ok.mp success
          obtain ⟨first, afterFirst, parsedFirst, continued⟩ := bind_eq_ok.mp continued
          obtain ⟨rest, _, parsedRest, returned⟩ := bind_eq_ok.mp continued
          obtain ⟨rfl, rfl⟩ := pure_eq_ok.mp returned
          have passed := advance_eq_ok advanced
          have keywordShorter := length_kinds_of_cons passed
          obtain ⟨_, takenFirst, conditionTokens, bodyTokens, condition, body, rfl, rfl,
            test, guarded⟩ := branch_sound inner nested (by omega) parsedFirst
          have firstShorter := length_kinds_of_take takenFirst
          obtain ⟨restTokens, takenRest, restDerived⟩ :=
            inductionHypothesis (by omega) parsedRest
          refine ⟨_, ?_, .elseIf found.2 test guarded restDerived⟩
          rw [passed, found.1, takenFirst, takenRest]
          simp
      · obtain ⟨rfl, rfl⟩ := pure_eq_ok.mp success
        exact ⟨[], rfl, .noElseIf⟩

include inner nested in
theorem choice_sound (allowed : Feature.conditional ∈ grammar.features) :
    Sound grammar.limit (choice grammar expression block)
      fun tokens statement => Derives grammar.features tokens (.bare statement) := by
  intro feed final result within success
  obtain ⟨_, afterKeyword, expected, continued⟩ := bind_eq_ok.mp success
  obtain ⟨first, afterFirst, parsedFirst, continued⟩ := bind_eq_ok.mp continued
  obtain ⟨rest, afterRest, parsedRest, continued⟩ := bind_eq_ok.mp continued
  have passed := expect_eq_ok expected
  have keywordShorter := length_kinds_of_cons passed
  obtain ⟨_, takenFirst, conditionTokens, bodyTokens, condition, body, rfl, rfl,
    test, guarded⟩ := branch_sound inner nested (by omega) parsedFirst
  have firstShorter := length_kinds_of_take takenFirst
  obtain ⟨restTokens, takenRest, restDerived⟩ :=
    elseIfBranches_sound inner nested _ (by omega) parsedRest
  have restShorter := length_kinds_of_take takenRest
  rw [peek_bind, if_apply] at continued
  split at continued
  · next found =>
      obtain ⟨_, afterElse, advanced, continued⟩ := bind_eq_ok.mp continued
      obtain ⟨otherwise, _, parsedLast, returned⟩ := bind_eq_ok.mp continued
      obtain ⟨rfl, rfl⟩ := pure_eq_ok.mp returned
      have passedElse := advance_eq_ok advanced
      have elseShorter := length_kinds_of_cons passedElse
      obtain ⟨lastTokens, takenLast, lastDerived⟩ := nested (by omega) parsedLast
      refine ⟨_, ?_, .choose allowed test guarded restDerived (.someOtherwise lastDerived)⟩
      rw [passed, takenFirst, takenRest, passedElse, found, takenLast]
      simp
  · obtain ⟨rfl, rfl⟩ := pure_eq_ok.mp continued
    refine ⟨_, ?_, .choose allowed test guarded restDerived .noOtherwise⟩
    rw [passed, takenFirst, takenRest]
    simp

/-! ## Loops -/

include inner in
theorem headerPart_sound (absent : Symbol) :
    Sound grammar.limit (headerPart grammar expression absent)
      fun tokens statement => Derives grammar.features tokens (.headerPart statement) := by
  intro feed final result within success
  rw [headerPart, peek_bind, if_apply] at success
  split at success
  · obtain ⟨rfl, rfl⟩ := pure_eq_ok.mp success
    exact ⟨[], rfl, .noPart⟩
  · obtain ⟨tokens, taken, derived⟩ := assignmentOnly_sound inner within success
    exact ⟨tokens, taken, .somePart derived⟩

include inner in
theorem headerCondition_sound :
    Sound grammar.limit (headerCondition expression)
      fun tokens condition => Derives grammar.features tokens (.headerCondition condition) := by
  intro feed final result within success
  rw [headerCondition, peek_bind, if_apply] at success
  split at success
  · obtain ⟨rfl, rfl⟩ := pure_eq_ok.mp success
    exact ⟨[], rfl, .noCondition⟩
  · obtain ⟨condition, _, parsed, returned⟩ := bind_eq_ok.mp success
    obtain ⟨rfl, rfl⟩ := pure_eq_ok.mp returned
    obtain ⟨tokens, taken, derived⟩ := inner within parsed
    exact ⟨tokens, taken, .someCondition derived⟩

include inner nested in
theorem loop_sound (allowed : Feature.loop ∈ grammar.features) :
    Sound grammar.limit (loop grammar expression block)
      fun tokens statement => Derives grammar.features tokens (.bare statement) := by
  intro feed final result within success
  obtain ⟨_, afterKeyword, expected, continued⟩ := bind_eq_ok.mp success
  obtain ⟨initial, afterInitial, parsedInitial, continued⟩ := bind_eq_ok.mp continued
  obtain ⟨_, afterFirst, expectedFirst, continued⟩ := bind_eq_ok.mp continued
  obtain ⟨condition, afterCondition, parsedCondition, continued⟩ := bind_eq_ok.mp continued
  obtain ⟨_, afterSecond, expectedSecond, continued⟩ := bind_eq_ok.mp continued
  obtain ⟨step, afterStep, parsedStep, continued⟩ := bind_eq_ok.mp continued
  obtain ⟨body, _, parsedBody, returned⟩ := bind_eq_ok.mp continued
  obtain ⟨rfl, rfl⟩ := pure_eq_ok.mp returned
  have passed := expect_eq_ok expected
  have passedFirst := expect_eq_ok expectedFirst
  have passedSecond := expect_eq_ok expectedSecond
  have keywordShorter := length_kinds_of_cons passed
  have firstShorter := length_kinds_of_cons passedFirst
  have secondShorter := length_kinds_of_cons passedSecond
  obtain ⟨initialTokens, takenInitial, initialDerived⟩ :=
    headerPart_sound inner _ (by omega) parsedInitial
  have initialShorter := length_kinds_of_take takenInitial
  obtain ⟨conditionTokens, takenCondition, conditionDerived⟩ :=
    headerCondition_sound inner (by omega) parsedCondition
  have conditionShorter := length_kinds_of_take takenCondition
  obtain ⟨stepTokens, takenStep, stepDerived⟩ :=
    headerPart_sound inner _ (by omega) parsedStep
  have stepShorter := length_kinds_of_take takenStep
  obtain ⟨bodyTokens, takenBody, bodyDerived⟩ := nested (by omega) parsedBody
  refine ⟨_, ?_, .loop allowed initialDerived conditionDerived stepDerived bodyDerived⟩
  rw [passed, takenInitial, passedFirst, takenCondition, passedSecond, takenStep, takenBody]
  simp

/-! ## Declarations -/

theorem parameterNames_sound :
    ∀ (count : Nat) ⦃feed final : Feed⦄ ⦃names : List String⦄, feed.kinds.length ≤ count →
      parameterNames count feed = .ok (names, final) →
      feed.kinds = nameTokens names ++ final.kinds ∧ names ≠ [] := by
  intro count
  induction count with
  | zero =>
      intro feed final names enough
      have := one_le_length_kinds feed
      omega
  | succ count inductionHypothesis =>
      intro feed final names enough success
      obtain ⟨first, afterFirst, named, continued⟩ := bind_eq_ok.mp success
      have nameTaken := identifier_eq_ok named
      have nameShorter := length_kinds_of_cons nameTaken
      rw [peek_bind, if_apply] at continued
      split at continued
      · next comma =>
          obtain ⟨_, afterComma, advanced, continued⟩ := bind_eq_ok.mp continued
          obtain ⟨rest, _, parsedRest, returned⟩ := bind_eq_ok.mp continued
          obtain ⟨rfl, rfl⟩ := pure_eq_ok.mp returned
          have passed := advance_eq_ok advanced
          have commaShorter := length_kinds_of_cons passed
          obtain ⟨takenRest, someRest⟩ := inductionHypothesis (by omega) parsedRest
          obtain ⟨second, others, rfl⟩ := List.exists_cons_of_ne_nil someRest
          refine ⟨?_, List.cons_ne_nil _ _⟩
          rw [nameTaken, passed, comma, takenRest]
          simp [nameTokens]
      · obtain ⟨rfl, rfl⟩ := pure_eq_ok.mp continued
        exact ⟨nameTaken, List.cons_ne_nil _ _⟩

theorem parameters_sound {feed final : Feed} {names : List String}
    (within : feed.kinds.length ≤ grammar.limit)
    (success : parameters grammar feed = .ok (names, final)) :
    feed.kinds = nameTokens names ++ final.kinds := by
  rw [parameters, peek_bind, if_apply] at success
  split at success
  · obtain ⟨rfl, rfl⟩ := pure_eq_ok.mp success
    rfl
  · exact (parameterNames_sound _ within success).1

include nested in
theorem declaration_sound (allowed : Feature.function ∈ grammar.features) :
    Sound grammar.limit (declaration grammar block)
      fun tokens statement => Derives grammar.features tokens (.bare statement) := by
  intro feed final result within success
  obtain ⟨_, afterKeyword, expected, continued⟩ := bind_eq_ok.mp success
  obtain ⟨name, afterName, named, continued⟩ := bind_eq_ok.mp continued
  obtain ⟨_, afterOpen, expectedOpen, continued⟩ := bind_eq_ok.mp continued
  obtain ⟨names, afterNames, parsedNames, continued⟩ := bind_eq_ok.mp continued
  obtain ⟨_, afterClose, expectedClose, continued⟩ := bind_eq_ok.mp continued
  obtain ⟨body, _, parsedBody, returned⟩ := bind_eq_ok.mp continued
  obtain ⟨rfl, rfl⟩ := pure_eq_ok.mp returned
  have passed := expect_eq_ok expected
  have nameTaken := identifier_eq_ok named
  have passedOpen := expect_eq_ok expectedOpen
  have passedClose := expect_eq_ok expectedClose
  have keywordShorter := length_kinds_of_cons passed
  have nameShorter := length_kinds_of_cons nameTaken
  have openShorter := length_kinds_of_cons passedOpen
  have closeShorter := length_kinds_of_cons passedClose
  have takenNames := parameters_sound (by omega) parsedNames
  have namesShorter := length_kinds_of_take takenNames
  obtain ⟨bodyTokens, takenBody, bodyDerived⟩ := nested (by omega) parsedBody
  refine ⟨_, ?_, .declare name names allowed bodyDerived⟩
  rw [passed, nameTaken, passedOpen, takenNames, passedClose, takenBody]
  simp

/-! ## Statements in order -/

include inner nested in
theorem statement_sound :
    Sound grammar.limit (statement grammar expression block)
      fun tokens result => Derives grammar.features tokens (.statement result) := by
  intro feed final result within success
  obtain ⟨bare, afterBare, parsed, continued⟩ := bind_eq_ok.mp success
  obtain ⟨_, _, skipped, returned⟩ := bind_eq_ok.mp continued
  obtain ⟨rfl, rfl⟩ := pure_eq_ok.mp returned
  have bareDerived : ∃ tokens, feed.kinds = tokens ++ afterBare.kinds ∧
      Derives grammar.features tokens (.bare bare) := by
    rw [bareStatement, peek_bind] at parsed
    generalize found : feed.current.kind = kind at parsed
    split at parsed
    · exact assignmentOrExpression_sound inner found within parsed
    · rw [if_apply] at parsed
      split at parsed
      · next allowed => exact choice_sound inner nested allowed within parsed
      · exact absurd parsed invalidStart_ne_ok
    · rw [if_apply] at parsed
      split at parsed
      · next allowed => exact loop_sound inner nested allowed within parsed
      · exact absurd parsed invalidStart_ne_ok
    · rw [if_apply] at parsed
      split at parsed
      · next allowed => exact declaration_sound nested allowed within parsed
      · exact absurd parsed invalidStart_ne_ok
    · rw [if_apply] at parsed
      split at parsed
      · next allowed => exact giveBack_sound inner allowed within parsed
      · exact absurd parsed invalidStart_ne_ok
    · exact absurd parsed invalidStart_ne_ok
  obtain ⟨tokens, taken, derived⟩ := bareDerived
  obtain ⟨ending, ends, takenEnd⟩ := skipNewline_sound skipped
  refine ⟨_, ?_, .ofBare derived ends⟩
  rw [taken, takenEnd, List.append_assoc]

theorem statementsInBlock_sound {statement : Parser Feed Statement}
    (each : Sound grammar.limit statement
      fun tokens result => Derives grammar.features tokens (.statement result)) :
    ∀ (count : Nat) ⦃feed final : Feed⦄ ⦃statements : Block⦄, feed.kinds.length ≤ count →
      feed.kinds.length ≤ grammar.limit →
      statementsInBlock statement count feed = .ok (statements, final) →
      final.current.kind = .symbol .rightBrace ∧
      ∃ tokens, feed.kinds = tokens ++ final.kinds ∧
        Derives grammar.features tokens (.statements statements) := by
  intro count
  induction count with
  | zero =>
      intro feed final statements enough
      have := one_le_length_kinds feed
      omega
  | succ count inductionHypothesis =>
      intro feed final statements enough within success
      rw [statementsInBlock, peek_bind] at success
      generalize found : feed.current.kind = kind at success
      split at success
      · obtain ⟨rfl, rfl⟩ := pure_eq_ok.mp success
        exact ⟨found, [], rfl, .noStatement⟩
      · exact absurd success unexpected_ne_ok
      · obtain ⟨first, afterFirst, parsed, continued⟩ := bind_eq_ok.mp success
        obtain ⟨rest, _, parsedRest, returned⟩ := bind_eq_ok.mp continued
        obtain ⟨rfl, rfl⟩ := pure_eq_ok.mp returned
        obtain ⟨firstTokens, taken, firstDerived⟩ := each within parsed
        have shorter := length_kinds_of_take taken
        have some := firstDerived.length_pos
        obtain ⟨closed, restTokens, takenRest, restDerived⟩ :=
          inductionHypothesis (by omega) (by omega) parsedRest
        refine ⟨closed, _, ?_, .nextStatement firstDerived restDerived⟩
        rw [taken, takenRest, List.append_assoc]

theorem statementsToEnd_sound {statement : Parser Feed Statement}
    (each : Sound grammar.limit statement
      fun tokens result => Derives grammar.features tokens (.statement result)) :
    ∀ (count : Nat) ⦃feed final : Feed⦄ ⦃statements : Block⦄, feed.kinds.length ≤ count →
      feed.kinds.length ≤ grammar.limit →
      statementsToEnd statement count feed = .ok (statements, final) →
      final.current.kind = .endOfInput ∧
      ∃ tokens, feed.kinds = tokens ++ final.kinds ∧
        Derives grammar.features tokens (.statements statements) := by
  intro count
  induction count with
  | zero =>
      intro feed final statements enough
      have := one_le_length_kinds feed
      omega
  | succ count inductionHypothesis =>
      intro feed final statements enough within success
      rw [statementsToEnd, peek_bind, if_apply] at success
      split at success
      · next found =>
          obtain ⟨rfl, rfl⟩ := pure_eq_ok.mp success
          exact ⟨found, [], rfl, .noStatement⟩
      · obtain ⟨first, afterFirst, parsed, continued⟩ := bind_eq_ok.mp success
        obtain ⟨rest, _, parsedRest, returned⟩ := bind_eq_ok.mp continued
        obtain ⟨rfl, rfl⟩ := pure_eq_ok.mp returned
        obtain ⟨firstTokens, taken, firstDerived⟩ := each within parsed
        have shorter := length_kinds_of_take taken
        have some := firstDerived.length_pos
        obtain ⟨ended, restTokens, takenRest, restDerived⟩ :=
          inductionHypothesis (by omega) (by omega) parsedRest
        refine ⟨ended, _, ?_, .nextStatement firstDerived restDerived⟩
        rw [taken, takenRest, List.append_assoc]

end Pieces

/-! ## Blocks and programs -/

theorem block_sound (grammar : Grammar) (room : Nat) :
    Sound grammar.limit (block grammar room)
      fun tokens body => Derives grammar.features tokens (.block body) := by
  induction room with
  | zero => exact sound_tooDeep _ _
  | succ room inductionHypothesis =>
      intro feed final body within success
      obtain ⟨_, afterOpen, expected, continued⟩ := bind_eq_ok.mp success
      obtain ⟨_, afterOpening, skippedOpening, continued⟩ := bind_eq_ok.mp continued
      obtain ⟨statements, afterStatements, parsed, continued⟩ := bind_eq_ok.mp continued
      obtain ⟨_, afterClose, advanced, continued⟩ := bind_eq_ok.mp continued
      obtain ⟨_, _, skippedEnding, returned⟩ := bind_eq_ok.mp continued
      obtain ⟨rfl, rfl⟩ := pure_eq_ok.mp returned
      have passed := expect_eq_ok expected
      have openShorter := length_kinds_of_cons passed
      obtain ⟨opening, opens, takenOpening⟩ := skipNewline_sound skippedOpening
      have openingShorter := length_kinds_of_take takenOpening
      obtain ⟨closed, tokens, taken, derived⟩ :=
        statementsInBlock_sound (statement_sound (expression_sound grammar room)
          inductionHypothesis) _ (by omega) (by omega) parsed
      obtain ⟨ending, ends, takenEnding⟩ := skipNewline_sound skippedEnding
      refine ⟨_, ?_, .braces opens derived ends⟩
      rw [passed, takenOpening, taken, advance_eq_ok advanced, closed, takenEnding]
      simp

/-- A program that is accepted is derived from the tokens up to an end of
input. -/
theorem program_sound {grammar : Grammar} {feed final : Feed} {body : Block}
    (within : feed.kinds.length ≤ grammar.limit)
    (success : program grammar feed = .ok (body, final)) :
    final.current.kind = .endOfInput ∧
    ∃ opening tokens, OptionalNewline opening ∧
      Derives grammar.features tokens (.statements body) ∧
      feed.kinds = opening ++ (tokens ++ final.kinds) := by
  obtain ⟨_, afterOpening, skipped, parsed⟩ := bind_eq_ok.mp success
  obtain ⟨opening, opens, takenOpening⟩ := skipNewline_sound skipped
  have openingShorter := length_kinds_of_take takenOpening
  obtain ⟨ended, tokens, taken, derived⟩ :=
    statementsToEnd_sound (statement_sound (expression_sound grammar maxNesting)
      (block_sound grammar maxNesting)) _ (by omega) (by omega) parsed
  refine ⟨ended, opening, tokens, opens, derived, ?_⟩
  rw [takenOpening, taken]

end Parser

end Scriptlet
