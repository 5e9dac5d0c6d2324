import Scriptlet.Program
import Scriptlet.Proofs.Parser.Completeness.Program
import Scriptlet.Proofs.Parser.Reader

/-!
Contract: the parser accepts exactly its grammar, up to the nesting limit.

Owns:
- the tree of a text is the one that its tokens derive, in both directions;
- line feeds only separate: what is accepted with them is accepted without any
  of them, as the same tree.

A source text is parsed as the tokens it is cut into are, so what it derives is
said of those tokens.  A text that is accepted was cut without failure.
-/

namespace Scriptlet

variable {features : FeatureSet} {source : String}

/-- A text with a token is parsed as the feed of its tokens is, under a limit that
they do not exceed. -/
theorem parse_eq_program_of_tokens {current : Token} {later : List Token}
    (tokens : (scanAll features (Cursor.start source)).tokens = current :: later) :
    ∃ feed : Feed, feed.kinds = (scanAll features (Cursor.start source)).kinds ∧
      feed.kinds.length ≤ source.length + 1 ∧
      parse features source =
        (Parser.program ⟨features, source.length + 1⟩ feed).map Prod.fst := by
  refine ⟨⟨current, later, (scanAll features (Cursor.start source)).failure.getD .exhausted⟩,
    ?_, ?_, ?_⟩
  · rw [TokenRun.kinds, tokens]
    rfl
  · have few := length_scanAll_le features (Cursor.start source)
    rw [tokens, Cursor.start, String.length_toList] at few
    simpa [Feed.kinds] using few
  · rw [parse_eq_parseTokens, parseTokens, tokens]
    rfl

/-- A text is accepted because the feed of its tokens is. -/
theorem program_of_parse {body : Block} (success : parse features source = .ok body) :
    ∃ feed final : Feed, feed.kinds = (scanAll features (Cursor.start source)).kinds ∧
      feed.kinds.length ≤ source.length + 1 ∧
      Parser.program ⟨features, source.length + 1⟩ feed = .ok (body, final) := by
  cases tokens : (scanAll features (Cursor.start source)).tokens with
  | nil => simp [parse_eq_parseTokens, parseTokens, tokens] at success
  | cons current later =>
      obtain ⟨feed, feedKinds, within, isProgram⟩ := parse_eq_program_of_tokens tokens
      rw [isProgram] at success
      cases outcome : Parser.program ⟨features, source.length + 1⟩ feed with
      | error failure => simp [outcome, Except.map] at success
      | ok pair =>
          obtain ⟨result, final⟩ := pair
          rw [outcome] at success
          cases success
          exact ⟨feed, final, feedKinds, within, outcome⟩

/-- What is accepted is derived from the tokens of the text, which was cut
without failure. -/
theorem derivedFrom_of_parse {body : Block} (success : parse features source = .ok body) :
    body.DerivedFrom features (scanAll features (Cursor.start source)).kinds ∧
      (scanAll features (Cursor.start source)).failure = none := by
  obtain ⟨feed, final, feedKinds, within, outcome⟩ := program_of_parse success
  obtain ⟨ended, opening, statementTokens, opens, derived, kinds⟩ :=
    Parser.program_sound within outcome
  rw [feedKinds, Feed.kinds, ended, ← List.append_assoc] at kinds
  obtain ⟨noMore, finished⟩ := eq_append_endOfInput kinds
  rw [noMore, List.append_assoc] at kinds
  exact ⟨⟨opening, statementTokens, opens, derived, kinds⟩, finished⟩

/-- A text whose tokens derive a program is accepted if its statements fit in the
room that there is, and else meets the nesting limit. -/
theorem parse_of_completes {demand : Parser.Demand} {opening tokens : List TokenKind}
    {body : Block} (opens : OptionalNewline opening)
    (derived : StatementForm.Derives features tokens (.statements body))
    (complete : Parser.CompletesStatement features demand tokens (.statements body))
    (kinds : (scanAll features (Cursor.start source)).kinds =
      opening ++ (tokens ++ [.endOfInput])) :
    demand.fits maxNesting ∧ parse features source = .ok body ∨
      ¬ demand.fits maxNesting ∧ ∃ position, parse features source = .error (.tooDeep position) := by
  cases found : (scanAll features (Cursor.start source)).tokens with
  | nil => simp [TokenRun.kinds, found] at kinds
  | cons current later =>
      obtain ⟨feed, feedKinds, within, isProgram⟩ := parse_eq_program_of_tokens found
      rw [isProgram]
      rcases Parser.yields_program opens derived complete (feedKinds.trans kinds)
        within with ⟨fits, final, success, _⟩ | ⟨tight, position, failure⟩
      · rw [success]
        exact .inl ⟨fits, rfl⟩
      · rw [failure]
        exact .inr ⟨tight, position, rfl⟩

section Fits

variable {demand : Parser.Demand} {opening tokens : List TokenKind} {body : Block}

theorem fits_of_parse (opens : OptionalNewline opening)
    (derived : StatementForm.Derives features tokens (.statements body))
    (complete : Parser.CompletesStatement features demand tokens (.statements body))
    (kinds : (scanAll features (Cursor.start source)).kinds =
      opening ++ (tokens ++ [.endOfInput]))
    (accepted : parse features source = .ok body) : demand.fits maxNesting := by
  rcases parse_of_completes opens derived complete kinds with ⟨fits, _⟩ | ⟨_, position, tooDeep⟩
  · exact fits
  · rw [accepted] at tooDeep
    cases tooDeep

theorem parse_of_fits (opens : OptionalNewline opening)
    (derived : StatementForm.Derives features tokens (.statements body))
    (complete : Parser.CompletesStatement features demand tokens (.statements body))
    (kinds : (scanAll features (Cursor.start source)).kinds =
      opening ++ (tokens ++ [.endOfInput]))
    (fits : demand.fits maxNesting) : parse features source = .ok body := by
  rcases parse_of_completes opens derived complete kinds with ⟨_, success⟩ | ⟨tight, _⟩
  · exact success
  · exact absurd fits tight

end Fits

/-- What the tokens of a text derive is accepted, unless the parser meets the
nesting limit. -/
theorem parse_of_derivedFrom {body : Block}
    (derived : body.DerivedFrom features (scanAll features (Cursor.start source)).kinds) :
    parse features source = .ok body ∨
      ∃ position, parse features source = .error (.tooDeep position) := by
  obtain ⟨opening, tokens, opens, derived, kinds⟩ := derived
  obtain ⟨demand, complete⟩ := Parser.exists_completesStatement derived
  rcases parse_of_completes opens derived (complete (.refl tokens)).2 kinds with
    ⟨_, success⟩ | ⟨_, failure⟩
  · exact .inl success
  · exact .inr failure

theorem kinds_of_tokenize {tokens : List Token}
    (tokenized : tokenize features source = .ok tokens) :
    (scanAll features (Cursor.start source)).kinds = tokens.map Token.kind := by
  rw [TokenRun.kinds, (tokenize_eq_ok_iff.mp tokenized).2]

/-- The parser accepts a program only if its tokens derive it, and accepts every
program that they derive unless it meets the nesting limit. -/
theorem parse_accepts_exactly_grammar {tokens : List Token}
    (tokenized : tokenize features source = .ok tokens) (body : Block) :
    (parse features source = .ok body →
      body.DerivedFrom features (tokens.map Token.kind)) ∧
    (body.DerivedFrom features (tokens.map Token.kind) →
      parse features source = .ok body ∨
        ∃ position, parse features source = .error (.tooDeep position)) := by
  rw [← kinds_of_tokenize tokenized]
  exact ⟨fun success => (derivedFrom_of_parse success).1, parse_of_derivedFrom⟩

/-- The negation covers the whole difference, and the difference is taken from
the left. -/
theorem derives_negated_differences :
    tokenize FeatureSet.none "x=not a-b-1" =
      .ok [⟨.identifier "x", 0, 1⟩, ⟨.symbol .assign, 1, 2⟩, ⟨.keyword .not, 2, 5⟩,
        ⟨.identifier "a", 6, 7⟩, ⟨.symbol .minus, 7, 8⟩, ⟨.identifier "b", 8, 9⟩,
        ⟨.symbol .minus, 9, 10⟩, ⟨.integer 1, 10, 11⟩, ⟨.endOfInput, 11, 11⟩] ∧
    Block.DerivedFrom FeatureSet.none
      [.identifier "x", .symbol .assign, .keyword .not, .identifier "a", .symbol .minus,
        .identifier "b", .symbol .minus, .integer 1, .endOfInput]
      [.assign "x" (.unary .not
        (.binary .subtract (.binary .subtract (.name "a") (.name "b")) (.integer 1)))] := by
  have tokenized : tokenize FeatureSet.none "x=not a-b-1" =
      .ok [⟨.identifier "x", 0, 1⟩, ⟨.symbol .assign, 1, 2⟩, ⟨.keyword .not, 2, 5⟩,
        ⟨.identifier "a", 6, 7⟩, ⟨.symbol .minus, 7, 8⟩, ⟨.identifier "b", 8, 9⟩,
        ⟨.symbol .minus, 9, 10⟩, ⟨.integer 1, 10, 11⟩, ⟨.endOfInput, 11, 11⟩] := by
    decide +kernel
  exact ⟨tokenized, (parse_accepts_exactly_grammar tokenized _).1 (by decide +kernel)⟩

/-! ## Line feeds left out -/

/-- A text that has the tokens of an accepted one without some of its line feeds is
accepted as the same tree.  The room that the tokens ask for does not depend on the
line feeds, so the accepted text shows that there is enough of it. -/
theorem parse_of_dropsNewlines {other : String} {body : Block}
    (accepted : parse features source = .ok body)
    (drops : DropsNewlines (scanAll features (Cursor.start source)).kinds
      (scanAll features (Cursor.start other)).kinds) :
    parse features other = .ok body := by
  obtain ⟨⟨opening, tokens, opens, derived, kinds⟩, _⟩ := derivedFrom_of_parse accepted
  obtain ⟨demand, complete⟩ := Parser.exists_completesStatement derived
  have fits := fits_of_parse opens derived (complete (.refl tokens)).2 kinds accepted
  rw [kinds] at drops
  obtain ⟨fewerOpening, onward, isOpening, openingDrops, onwardDrops⟩ := drops.of_append
  obtain ⟨fewer, ending, rfl, tokenDrops, endDrops⟩ := onwardDrops.of_append
  obtain rfl := endDrops.eq_of_not_mem (by simp)
  obtain ⟨fewerDerived, fewerComplete⟩ := complete tokenDrops
  exact parse_of_fits (openingDrops.optionalNewline opens) fewerDerived fewerComplete isOpening fits

theorem Program.parse_of_compile {program : Program}
    (compiled : compile features source = .ok program) :
    parse features source = .ok program.body := by
  unfold compile at compiled
  cases parsed : parse features source with
  | error failure => simp [parsed, Except.map] at compiled
  | ok body =>
      rw [parsed] at compiled
      cases compiled
      rfl

/-- Line feeds only ever separate.  A text whose token kinds are those of one that
compiles, with any number of line feeds removed, compiles to the same program. -/
theorem compile_of_fewer_newlines {other : String} {tokens fewer : List Token}
    {program : Program} (compiled : Program.compile features source = .ok program)
    (tokenized : tokenize features source = .ok tokens)
    (tokenizedFewer : tokenize features other = .ok fewer)
    (drops : DropsNewlines (tokens.map Token.kind) (fewer.map Token.kind)) :
    Program.compile features other = .ok program := by
  rw [← kinds_of_tokenize tokenized, ← kinds_of_tokenize tokenizedFewer] at drops
  have accepted := Program.parse_of_compile compiled
  rw [← compiled, Program.compile, Program.compile, parse_of_dropsNewlines accepted drops, accepted]

/-- Without its line feeds the program has what follows a block right after it. -/
theorem compiles_on_one_line :
    Program.compile {.conditional} "if x\x7b\n\x7d\ny=x" =
      .ok ⟨{.conditional}, [.choose [.mk (.name "x") []] [], .assign "y" (.name "x")]⟩ ∧
    Program.compile {.conditional} "if x\x7b\x7dy=x" =
      .ok ⟨{.conditional}, [.choose [.mk (.name "x") []] [], .assign "y" (.name "x")]⟩ := by
  have compiled : Program.compile {.conditional} "if x\x7b\n\x7d\ny=x" =
      .ok ⟨{.conditional}, [.choose [.mk (.name "x") []] [], .assign "y" (.name "x")]⟩ := by
    decide +kernel
  have tokenized : tokenize {.conditional} "if x\x7b\n\x7d\ny=x" =
      .ok [⟨.keyword .ifThen, 0, 2⟩, ⟨.identifier "x", 3, 4⟩, ⟨.symbol .leftBrace, 4, 5⟩,
        ⟨.newline, 5, 6⟩, ⟨.symbol .rightBrace, 6, 7⟩, ⟨.newline, 7, 8⟩,
        ⟨.identifier "y", 8, 9⟩, ⟨.symbol .assign, 9, 10⟩, ⟨.identifier "x", 10, 11⟩,
        ⟨.endOfInput, 11, 11⟩] := by
    decide +kernel
  have tokenizedFewer : tokenize {.conditional} "if x\x7b\x7dy=x" =
      .ok [⟨.keyword .ifThen, 0, 2⟩, ⟨.identifier "x", 3, 4⟩, ⟨.symbol .leftBrace, 4, 5⟩,
        ⟨.symbol .rightBrace, 5, 6⟩, ⟨.identifier "y", 6, 7⟩, ⟨.symbol .assign, 7, 8⟩,
        ⟨.identifier "x", 8, 9⟩, ⟨.endOfInput, 9, 9⟩] := by
    decide +kernel
  exact ⟨compiled, compile_of_fewer_newlines compiled tokenized tokenizedFewer
    (.keep _ (.keep _ (.keep _ (.drop (.keep _ (.drop (.refl _)))))))⟩

end Scriptlet
