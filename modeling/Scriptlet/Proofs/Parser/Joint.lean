import Mathlib.Data.List.Forall2
import Scriptlet.Proofs.Parser.Acceptance
import Scriptlet.Proofs.Token.Joint

/-!
Contract: a text that goes on after a line feed is parsed as its parts are.

Owns:
- statements that go on with others: they are derived from the tokens of both, and fit
  where both do;
- the line feed between two texts ends the last statement of the first, or opens the
  second;
- the program of joined texts is that of one after that of the other.

A joint costs no room: each statement is parsed in the room that the text starts with.
-/

namespace Scriptlet

open StatementForm

variable {features : FeatureSet}

/-- Statements that do not end with a line feed can be ended with one. -/
theorem StatementForm.Derives.append_newline {tokens : List TokenKind} {body : Block}
    {afterNewline : Bool} (derived : Derives features tokens (.statements body))
    (some : body ≠ []) (noLine : endsLine afterNewline tokens = false) :
    Derives features (tokens ++ [.newline]) (.statements body) := by
  induction body generalizing tokens afterNewline with
  | nil => exact absurd rfl some
  | cons statement body inductionHypothesis =>
      cases derived with
      | nextStatement first rest =>
          rw [endsLine_append] at noLine
          rw [List.append_assoc]
          by_cases isLast : body = []
          · subst isLast
            cases rest
            cases first with
            | ofBare bare ends =>
                rcases ends with rfl | rfl
                · have ended := Derives.nextStatement (.ofBare bare (.inr rfl)) .noStatement
                  simpa using ended
                · rw [endsLine_append] at noLine
                  cases noLine
          · exact .nextStatement first (inductionHypothesis rest isLast noLine)

/-- Statements that go on with others are completed where both parts are, whichever of
the line feeds are left out of the first part on its own. -/
theorem Parser.exists_completesStatement_append {tokens restTokens : List TokenKind}
    {body rest : Block} {restDemand : Demand}
    (derived : Derives features tokens (.statements body))
    (restDerived : Derives features restTokens (.statements rest))
    (restComplete : CompletesStatement features restDemand restTokens (.statements rest)) :
    ∃ demand joined,
      (∀ ⦃fewer : List TokenKind⦄, DropsNewlines tokens fewer →
        Derives features fewer (.statements body) ∧
          CompletesStatement features demand fewer (.statements body)) ∧
      Derives features (tokens ++ restTokens) (.statements (body ++ rest)) ∧
      CompletesStatement features joined (tokens ++ restTokens) (.statements (body ++ rest)) ∧
      (demand.and restDemand).Covers joined := by
  induction body generalizing tokens with
  | nil =>
      cases derived
      refine ⟨.nothing, restDemand, fun fewer drops => ?_, restDerived, restComplete,
        fun _ fits => fits.2⟩
      obtain rfl := drops.eq_nil
      exact ⟨.noStatement, completes_noStatement⟩
  | cons statement body inductionHypothesis =>
      cases derived with
      | nextStatement first others =>
          obtain ⟨firstDemand, firstComplete⟩ := exists_completesStatement first
          obtain ⟨demand, joined, complete, joinedDerived, joinedComplete, covers⟩ :=
            inductionHypothesis others
          obtain ⟨_, wholeFirst⟩ := firstComplete (.refl _)
          rw [List.append_assoc]
          refine ⟨firstDemand.and demand, firstDemand.and joined, fun fewer drops => ?_,
            .nextStatement first joinedDerived,
            completes_nextStatement first joinedDerived wholeFirst joinedComplete,
            fun _ fits => ⟨fits.1.1, covers ⟨fits.1.2, fits.2⟩⟩⟩
          obtain ⟨fewerFirst, fewerOthers, rfl, firstDrops, otherDrops⟩ := drops.of_append
          obtain ⟨firstDerived, firstComplete⟩ := firstComplete firstDrops
          obtain ⟨otherDerived, otherComplete⟩ := complete otherDrops
          exact ⟨.nextStatement firstDerived otherDerived,
            completes_nextStatement firstDerived otherDerived firstComplete otherComplete⟩

/-- The line feed between two texts ends the last statement of the first one, or it
opens the joined text if there is none. -/
theorem exists_opening_of_joint {opening tokens : List TokenKind} {body : Block}
    (opens : OptionalNewline opening) (derived : Derives features tokens (.statements body)) :
    ∃ start longer, OptionalNewline start ∧
      Derives features longer (.statements body) ∧ DropsNewlines longer tokens ∧
      opening ++ tokens ++ (if endsLine false (opening ++ tokens) then [] else [.newline]) =
        start ++ longer := by
  cases ends : endsLine false (opening ++ tokens) with
  | true => exact ⟨opening, tokens, opens, derived, .refl tokens, by simp⟩
  | false =>
      rw [endsLine_append] at ends
      by_cases isEmpty : body = []
      · subst isEmpty
        cases derived
        rcases opens with rfl | rfl
        · exact ⟨[.newline], [], .inr rfl, .noStatement, .nil, rfl⟩
        · cases ends
      · have ended := derived.append_newline isEmpty ends
        have drops : DropsNewlines (tokens ++ [.newline]) tokens := by
          simpa using (DropsNewlines.refl tokens).append (.drop .nil)
        exact ⟨opening, tokens ++ [.newline], opens, ended, drops, by simp⟩

/-- Without the line feed that may open it, a text starts with its statements. -/
theorem dropFirstNewline_opening {opening tokens : List TokenKind} {body : Block}
    (opens : OptionalNewline opening) (derived : Derives features tokens (.statements body)) :
    dropFirstNewline (opening ++ (tokens ++ [.endOfInput])) = tokens ++ [.endOfInput] := by
  obtain ⟨first, later, isTokens, ends⟩ :=
    Parser.exists_endsStatement_of_statements derived (.inl rfl) []
  rcases opens with rfl | rfl
  · apply dropFirstNewline_of_head?
    rw [List.nil_append, isTokens, List.head?_cons, ne_eq, Option.some.injEq]
    exact ends.ne_newline
  · rfl

/-- A text that goes on after a line feed is parsed as its parts are. -/
theorem parse_append_newline {first second : String} {body rest : Block}
    (parsedFirst : parse features first = .ok body)
    (parsedSecond : parse features second = .ok rest) :
    parse features (first ++ "\n" ++ second) = .ok (body ++ rest) := by
  obtain ⟨⟨opening, tokens, opens, derived, kinds⟩, _⟩ := derivedFrom_of_parse parsedFirst
  obtain ⟨⟨restOpening, restTokens, restOpens, restDerived, restKinds⟩, _⟩ :=
    derivedFrom_of_parse parsedSecond
  obtain ⟨restDemand, restComplete⟩ := Parser.exists_completesStatement restDerived
  obtain ⟨_, restComplete⟩ := restComplete (.refl restTokens)
  obtain ⟨start, longer, starts, longerDerived, drops, isJoint⟩ :=
    exists_opening_of_joint opens derived
  obtain ⟨demand, joined, complete, joinedDerived, joinedComplete, covers⟩ :=
    Parser.exists_completesStatement_append longerDerived restDerived restComplete
  -- The first text asks for the same room with the line feed behind its last statement.
  have fits := fits_of_parse opens derived (complete drops).2 kinds parsedFirst
  have restFits := fits_of_parse restOpens restDerived restComplete restKinds parsedSecond
  rw [← List.append_assoc] at kinds restKinds
  have joinedKinds : (scanAll features (Cursor.start (first ++ "\n" ++ second))).kinds =
      start ++ (longer ++ restTokens ++ [.endOfInput]) := by
    rw [kinds_append_newline kinds restKinds, List.append_assoc restOpening,
      dropFirstNewline_opening restOpens restDerived, ← List.append_assoc, isJoint]
    simp only [List.append_assoc]
  exact parse_of_fits starts joinedDerived joinedComplete joinedKinds (covers ⟨fits, restFits⟩)

/-- Texts that are parsed also are with line feeds between them, to the statements of
each in turn.  Two texts are joined to `first ++ "\n" ++ second`. -/
theorem parse_intercalate_newline {sources : List String} {bodies : List Block}
    (parsed : List.Forall₂ (fun source body => parse features source = .ok body) sources bodies) :
    parse features ("\n".intercalate sources) = .ok bodies.flatten := by
  induction parsed with
  | nil =>
      have isEmpty : (scanAll features (Cursor.start "")).kinds = [.endOfInput] := (reads_nil 0).2
      exact parse_of_fits (.inl rfl) .noStatement Parser.completes_noStatement isEmpty trivial
  | @cons source body sources bodies parsedFirst others inductionHypothesis =>
      cases others with
      | nil => simpa using parsedFirst
      | cons =>
          rw [String.intercalate_cons_cons, List.flatten_cons]
          exact parse_append_newline parsedFirst inductionHypothesis

/-- The joint ends a comment, and the line feeds on both sides of it are one token. -/
theorem parse_intercalate_newline_after_comment :
    parse {.conditional} "if x\x7b\x7d\n# y" =
      .ok [.choose [.mk (.name "x") []] []] ∧
    parse {.conditional} "\ny=x" = .ok [.assign "y" (.name "x")] ∧
    parse {.conditional} ("if x\x7b\x7d\n# y" ++ "\n" ++ "\ny=x") =
      .ok ([.choose [.mk (.name "x") []] []] ++ [.assign "y" (.name "x")]) := by
  have first : parse {.conditional} "if x\x7b\x7d\n# y" =
      .ok [.choose [.mk (.name "x") []] []] := by
    decide +kernel
  have second : parse {.conditional} "\ny=x" = .ok [.assign "y" (.name "x")] := by
    decide +kernel
  have joined := parse_intercalate_newline (.cons first (.cons second .nil))
  rw [String.intercalate_cons_cons, String.intercalate_singleton] at joined
  exact ⟨first, second, joined⟩

end Scriptlet
