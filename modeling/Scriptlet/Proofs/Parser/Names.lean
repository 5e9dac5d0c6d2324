import Scriptlet.Proofs.Parser.Acceptance
import Scriptlet.Proofs.Run.Visits

/-!
Contract: the names that a compiled program binds.

Owns:
- the names that a node introduces, as a target of an assignment, a declared
  function or a parameter, and those that are introduced anywhere inside it;
- every name that is introduced in a program is an identifier of its text;
- a compiled program introduces no keyword, so with functions it never introduces
  the name under which returned values are stored.
-/

namespace Scriptlet

namespace Node

/-- Whether a node introduces a name itself. -/
def Introduces (name : String) : Node → Prop
  | .statement (.assign target _) => target = name
  | .statement (.declare function parameters _) => function = name ∨ name ∈ parameters
  | _ => False

/-- Whether a node, or one inside it, introduces a name. -/
def Mentions (node : Node) (name : String) : Prop :=
  ∃ inside : Node, inside.Within node ∧ inside.Introduces name

variable {name : String}

theorem Mentions.of_part {part node : Node} (mentions : part.Mentions name)
    (isPart : part.Part node) : node.Mentions name := by
  obtain ⟨inside, within, introduces⟩ := mentions
  exact ⟨inside, within.tail isPart, introduces⟩

theorem Mentions.cases {node : Node} (mentions : node.Mentions name) :
    node.Introduces name ∨ ∃ part : Node, part.Part node ∧ part.Mentions name := by
  obtain ⟨inside, within, introduces⟩ := mentions
  rcases within.cases_tail with rfl | ⟨part, within, isPart⟩
  · exact .inl introduces
  · exact .inr ⟨part, isPart, inside, within, introduces⟩

/-- Everything inside an expression is one. -/
theorem exists_expr_of_within {inside : Node} {expr : Expr}
    (within : inside.Within (.expr expr)) : ∃ inner, inside = .expr inner := by
  induction within using Relation.ReflTransGen.head_induction_on with
  | refl => exact ⟨expr, rfl⟩
  | head isPart _ inductionHypothesis =>
      obtain ⟨outer, rfl⟩ := inductionHypothesis
      cases isPart <;> exact ⟨_, rfl⟩

/-- Expressions introduce no names. -/
theorem not_mentions_expr (expr : Expr) : ¬ (Node.expr expr).Mentions name := by
  rintro ⟨inside, within, introduces⟩
  obtain ⟨inner, rfl⟩ := exists_expr_of_within within
  exact introduces

theorem Mentions.of_block {block : Block} (mentions : (Node.block block).Mentions name) :
    ∃ statement ∈ block, (Node.statement statement).Mentions name := by
  rcases mentions.cases with introduces | ⟨part, isPart, inPart⟩
  · exact introduces.elim
  · cases isPart with
    | statement member => exact ⟨_, member, inPart⟩

theorem Mentions.of_turns {condition : Option Expr} {step : Statement} {body : Block}
    (mentions : (Node.loop condition step body).Mentions name) :
    (Node.statement step).Mentions name ∨ (Node.block body).Mentions name := by
  rcases mentions.cases with introduces | ⟨part, isPart, inPart⟩
  · exact introduces.elim
  · cases isPart with
    | turnCondition condition => exact (not_mentions_expr condition inPart).elim
    | turnBody => exact .inr inPart
    | turnStep => exact .inl inPart

/-- The names that a statement introduces are its own, and those of the blocks and
statements in it. -/
theorem Mentions.of_statement {statement : Statement}
    (mentions : (Node.statement statement).Mentions name) :
    match statement with
    | .assign target _ => target = name
    | .declare function parameters body =>
        function = name ∨ name ∈ parameters ∨ (Node.block body).Mentions name
    | .choose branches otherwise =>
        (∃ branch ∈ branches, (Node.block branch.body).Mentions name) ∨
          (Node.block otherwise).Mentions name
    | .loop initial _ step body => (Node.statement initial).Mentions name ∨
        (Node.statement step).Mentions name ∨ (Node.block body).Mentions name
    | .store .. | .evaluate _ | .giveBack _ | .skip => False := by
  rcases mentions.cases with introduces | ⟨part, isPart, inPart⟩
  · cases statement with
    | assign => exact introduces
    | declare => exact introduces.imp_right .inl
    | store | evaluate | choose | loop | giveBack | skip => exact introduces.elim
  · cases isPart with
    | assigned _ expr | storeBase expr | storeOffset _ expr | stored _ _ expr | evaluated expr
    | returned expr => exact (not_mentions_expr expr inPart).elim
    | condition member => exact (not_mentions_expr _ inPart).elim
    | guarded member => exact .inl ⟨_, member, inPart⟩
    | otherwise => exact .inr inPart
    | initial => exact .inl inPart
    | turns => exact .inr inPart.of_turns
    | declared => exact .inr (.inr inPart)

end Node

/-! ## Trees and their tokens -/

theorem identifier_mem_nameTokens {name : String} {names : List String} (member : name ∈ names) :
    .identifier name ∈ nameTokens names := by
  induction names with
  | nil => cases member
  | cons first rest inductionHypothesis =>
      cases rest with
      | nil =>
          rw [List.mem_singleton] at member
          rw [member]
          exact List.mem_singleton_self _
      | cons second rest =>
          have isTokens : nameTokens (first :: second :: rest) =
              .identifier first :: .symbol .comma :: nameTokens (second :: rest) := rfl
          rw [isTokens]
          rcases List.mem_cons.mp member with rfl | member
          · exact List.mem_cons_self
          · exact List.mem_cons_of_mem _ (List.mem_cons_of_mem _ (inductionHypothesis member))

namespace StatementForm

/-- Whether the tree of a form introduces a name. -/
def Mentions (name : String) : StatementForm → Prop
  | .assignment tree | .headerPart tree | .bare tree | .statement tree =>
      (Node.statement tree).Mentions name
  | .headerCondition _ => False
  | .elseIfs branches => ∃ branch ∈ branches, (Node.block branch.body).Mentions name
  | .otherwise tree | .statements tree | .block tree => (Node.block tree).Mentions name

/-- Every name that a tree introduces is an identifier among the tokens it is
derived from. -/
theorem Derives.identifier_mem {features : FeatureSet} {tokens : List TokenKind}
    {form : StatementForm} {name : String} (derived : Derives features tokens form)
    (mentions : form.Mentions name) : .identifier name ∈ tokens := by
  induction derived with
  | assign target _ =>
      obtain rfl : target = name := Node.Mentions.of_statement mentions
      exact List.mem_cons_self
  | store | noPart | evaluate | giveBack => exact (Node.Mentions.of_statement mentions).elim
  | noCondition | someCondition => exact mentions.elim
  | somePart _ inductionHypothesis => exact inductionHypothesis mentions
  | ofAssignment _ inductionHypothesis => exact inductionHypothesis mentions
  | noElseIf =>
      obtain ⟨branch, member, _⟩ := mentions
      cases member
  | elseIf _ _ _ _ guarded rest =>
      obtain ⟨branch, member, mentions⟩ := mentions
      rcases List.mem_cons.mp member with rfl | member
      · simp [guarded mentions]
      · simp [rest ⟨branch, member, mentions⟩]
  | noOtherwise | noStatement =>
      obtain ⟨statement, member, _⟩ := Node.Mentions.of_block mentions
      cases member
  | someOtherwise _ inductionHypothesis =>
      exact List.mem_cons_of_mem _ (inductionHypothesis mentions)
  | choose _ _ _ _ _ guarded rest last =>
      rcases Node.Mentions.of_statement mentions with ⟨branch, member, mentions⟩ | mentions
      · rcases List.mem_cons.mp member with rfl | member
        · simp [guarded mentions]
        · simp [rest ⟨branch, member, mentions⟩]
      · simp [last mentions]
  | loop _ _ _ _ _ first _ last repeated =>
      rcases Node.Mentions.of_statement mentions with mentions | mentions | mentions
      · simp [first mentions]
      · simp [last mentions]
      · simp [repeated mentions]
  | declare function parameters _ _ inductionHypothesis =>
      rcases Node.Mentions.of_statement mentions with rfl | member | mentions
      · simp
      · simp [identifier_mem_nameTokens member]
      · simp [inductionHypothesis mentions]
  | ofBare _ _ inductionHypothesis =>
      exact List.mem_append_left _ (inductionHypothesis mentions)
  | nextStatement _ _ first rest =>
      obtain ⟨statement, member, inStatement⟩ := Node.Mentions.of_block mentions
      rcases List.mem_cons.mp member with rfl | member
      · exact List.mem_append_left _ (first inStatement)
      · exact List.mem_append_right _ (rest (inStatement.of_part (.statement member)))
  | braces _ _ _ inductionHypothesis => simp [inductionHypothesis mentions]

end StatementForm

/-! ## Compiled programs -/

/-- With functions, the name of returned values is a keyword. -/
theorem Keyword.ofWord?_returnName_ne_none {features : FeatureSet}
    (allowed : .function ∈ features) : Keyword.ofWord? features returnName ≠ none := by
  intro notFound
  have notReturns := List.find?_eq_none.mp notFound .returns (Keyword.mem_all _)
  exact notReturns (by simp [spelling, returnName, gate, FeatureSet.mem_def.mp allowed])

/-- A compiled program introduces only names that are no keywords. -/
theorem Program.ofWord?_of_mentions {features : FeatureSet} {source : String}
    {program : Program} (compiled : Program.compile features source = .ok program) {name : String}
    (mentions : (Node.block program.body).Mentions name) :
    Keyword.ofWord? features name = none := by
  unfold Program.compile at compiled
  cases parsed : parse features source with
  | error failure => simp [parsed, Except.map] at compiled
  | ok body =>
      rw [parsed] at compiled
      cases compiled
      obtain ⟨⟨opening, tokens, _, derived, kinds⟩, _⟩ := derivedFrom_of_parse parsed
      have isToken : .identifier name ∈ (scanAll features (Cursor.start source)).kinds := by
        rw [kinds]
        exact List.mem_append_right _ (List.mem_append_left _ (derived.identifier_mem mentions))
      obtain ⟨_, _, _, _, _, _, notKeyword⟩ := readable_of_mem_scanAll isToken
      exact notKeyword

/-- A program that is compiled with functions introduces nothing under the name of
returned values. -/
theorem Program.not_mentions_returnName {features : FeatureSet} {source : String}
    {program : Program} (compiled : Program.compile features source = .ok program)
    (allowed : .function ∈ features) : ¬ (Node.block program.body).Mentions returnName :=
  fun mentions => Keyword.ofWord?_returnName_ne_none allowed
    (Program.ofWord?_of_mentions compiled mentions)

end Scriptlet
