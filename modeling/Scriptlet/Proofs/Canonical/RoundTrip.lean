import Scriptlet.Program
import Scriptlet.Proofs.Canonical.Scan
import Scriptlet.Proofs.Parser.Acceptance

/-!
Contract: compiling the canonical text of a compiled program gives it back.

A compiled program is derived from readable tokens.  Its canonical text is cut
into its canonical tokens, these derive the program again, and the parser
accepts what tokens derive unless parentheses that only the canonical text has
exceed the nesting limit.
-/

namespace Scriptlet

variable {features : FeatureSet} {source : String}

/-- The canonical text of what readable tokens derive is cut into its canonical
tokens and the end of input. -/
theorem Block.DerivedFrom.reads_toSource {tokens : List TokenKind} {block : Block}
    (derived : block.DerivedFrom features tokens)
    (readable : ∀ kind ∈ tokens, kind.Readable features) :
    Reads features block.toSource.toList (Statement.linesTokens block ++ [.endOfInput]) := by
  obtain ⟨opening, statementTokens, _, statements, rfl⟩ := derived
  simp only [List.forall_mem_append] at readable
  have lines := statements.readsCanonically readable.2.1 0 reads_nil (by simp)
  rw [List.append_nil] at lines
  exact lines

/-- The canonical text of an accepted program has the program's canonical
tokens. -/
theorem scanAll_toSource_kinds {body : Block} (accepted : parse features source = .ok body) :
    (scanAll features (Cursor.start body.toSource)).kinds =
      Statement.linesTokens body ++ [.endOfInput] := by
  have readable : ∀ kind ∈ (scanAll features (Cursor.start source)).kinds,
      kind.Readable features := fun _ member => readable_of_mem_scanAll member
  have reads := (derivedFrom_of_parse accepted).1.reads_toSource readable
  exact (reads 0).2

/-- The canonical text of an accepted program is accepted as that program, or meets the
nesting limit. -/
theorem parse_toSource_or_tooDeep {body : Block} (accepted : parse features source = .ok body) :
    parse features body.toSource = .ok body ∨
      ∃ position, parse features body.toSource = .error (.tooDeep position) := by
  have derived := (derivedFrom_of_parse accepted).1.canonical
  rw [← scanAll_toSource_kinds accepted] at derived
  exact parse_of_derivedFrom derived

/-- Compiling the canonical text of a compiled program gives the same program,
or meets the nesting limit. -/
theorem compile_render {program : Program}
    (compiled : Program.compile features source = .ok program) :
    Program.compile features program.render = .ok program ∨
      ∃ position, Program.compile features program.render = .error (.tooDeep position) := by
  have accepted := Program.parse_of_compile compiled
  rw [Program.compile, accepted] at compiled
  rw [Program.compile, Program.render]
  rcases parse_toSource_or_tooDeep accepted with again | ⟨position, tooDeep⟩
  · rw [again]
    exact .inl compiled
  · rw [tooDeep]
    exact .inr ⟨position, rfl⟩

/-- Parentheses that are needed are written again, and those around the literal
are not. -/
theorem compile_render_negated_operand :
    Program.compile FeatureSet.none "x=a is(not b-(1-(2)))" =
      .ok ⟨FeatureSet.none, [.assign "x" (.binary .is (.name "a") (.unary .not
        (.binary .subtract (.name "b") (.binary .subtract (.integer 1) (.integer 2)))))]⟩ ∧
    (Program.compile FeatureSet.none "x = a is (not b - (1 - 2))\n" =
        .ok ⟨FeatureSet.none, [.assign "x" (.binary .is (.name "a") (.unary .not
          (.binary .subtract (.name "b") (.binary .subtract (.integer 1) (.integer 2)))))]⟩ ∨
      ∃ position, Program.compile FeatureSet.none "x = a is (not b - (1 - 2))\n" =
        .error (.tooDeep position)) := by
  have compiled : Program.compile FeatureSet.none "x=a is(not b-(1-(2)))" =
      .ok ⟨FeatureSet.none, [.assign "x" (.binary .is (.name "a") (.unary .not
        (.binary .subtract (.name "b") (.binary .subtract (.integer 1) (.integer 2)))))]⟩ := by
    decide +kernel
  have text : Program.render ⟨FeatureSet.none, [.assign "x" (.binary .is (.name "a") (.unary .not
      (.binary .subtract (.name "b") (.binary .subtract (.integer 1) (.integer 2)))))]⟩ =
      "x = a is (not b - (1 - 2))\n" := by
    decide +kernel
  have again := compile_render compiled
  rw [text] at again
  exact ⟨compiled, again⟩

/-- A compiled program that is read back from its canonical text is found equal, or the
nesting limit is met.  It is never found to differ. -/
theorem Program.roundTrip_of_compile {program : Program}
    (compiled : Program.compile features source = .ok program) :
    program.roundTrip = .ok true ∨
      ∃ position, program.roundTrip = .error (.tooDeep position) := by
  have accepted := Program.parse_of_compile compiled
  rw [Program.compile, accepted] at compiled
  have isProgram : ⟨features, program.body⟩ = program := Except.ok.inj compiled
  have sameFeatures : features = program.features := congrArg Program.features isProgram
  rw [Program.roundTrip, ← sameFeatures, Program.compile, Program.render]
  rcases parse_toSource_or_tooDeep accepted with again | ⟨position, tooDeep⟩
  · rw [again]
    exact .inl (congrArg Except.ok (decide_eq_true isProgram))
  · rw [tooDeep]
    exact .inr ⟨position, rfl⟩

end Scriptlet
