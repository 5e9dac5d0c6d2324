import Scriptlet.Proofs.Parser.Shape

/-!
Contract: how high and how deeply nested accepted trees are.

Owns:
- how many blocks of a tree a node lies in, and the room that is left for it;
- properties of whatever a parser gives, through the steps it is made of;
- expressions of at most height `maxNesting`, and statements in at most as many
  nested blocks, in every accepted program;
- that accepted programs are well formed.

The height of an expression is checked wherever a node is put on top of others.
Blocks take room, and a statement needs some, since an expression or a block is
a part of every statement that can stand in a block.
-/

namespace Scriptlet

/-! ## Room -/

namespace Expr

theorem height_le_heightOfList {expr : Expr} {exprs : List Expr} (member : expr ∈ exprs) :
    expr.height ≤ heightOfList exprs := by
  induction exprs with
  | nil => cases member
  | cons first rest inductionHypothesis =>
      rw [heightOfList]
      rcases List.mem_cons.mp member with rfl | member
      · exact Nat.le_max_left _ _
      · exact Nat.le_trans (inductionHypothesis member) (Nat.le_max_right _ _)

/-- Whether an expression is not too high. -/
def Low (expr : Expr) : Prop :=
  expr.height ≤ maxNesting

end Expr

namespace Node

/-- How many blocks a node puts around its parts. -/
def blocks : Node → Nat
  | .block _ => 1
  | _ => 0

/-- Whether the first node is the second one or stands somewhere inside it, with a
number of blocks around it there. -/
inductive LiesIn : (depth : Nat) → Node → Node → Prop where
  | self (node : Node) : LiesIn 0 node node
  | part {depth : Nat} {inside part node : Node} (lies : LiesIn depth inside part)
      (isPart : part.Part node) : LiesIn (depth + node.blocks) inside node

theorem exists_liesIn_of_within {inside node : Node} (within : inside.Within node) :
    ∃ depth, LiesIn depth inside node := by
  induction within with
  | refl => exact ⟨0, .self _⟩
  | tail _ isPart inductionHypothesis =>
      obtain ⟨depth, lies⟩ := inductionHypothesis
      exact ⟨_, lies.part isPart⟩

/-- Whether a node keeps to the limits with some room left, its parts left aside. -/
def Keeps (room : Nat) : Node → Prop
  | .expr found => found.Low
  | .statement _ => 0 < room
  | _ => True

/-- Whether a node and all nodes inside it keep to the limits, where every block
around a node leaves it less room. -/
def FitsIn (room : Nat) (node : Node) : Prop :=
  ∀ (depth : Nat) (inside : Node), LiesIn depth inside node → inside.Keeps (room - depth)

theorem FitsIn.of_parts {room : Nat} {node : Node} (keeps : node.Keeps room)
    (parts : ∀ part : Node, part.Part node → part.FitsIn (room - node.blocks)) :
    node.FitsIn room := by
  intro depth inside lies
  cases lies with
  | self => exact keeps
  | part lies isPart =>
      have keeps := parts _ isPart _ _ lies
      rwa [Nat.sub_sub, Nat.add_comm] at keeps

theorem FitsIn.part {room : Nat} {node part : Node} (fits : node.FitsIn room)
    (isPart : part.Part node) : part.FitsIn (room - node.blocks) := by
  intro depth inside lies
  have keeps := fits _ _ (lies.part isPart)
  rwa [Nat.add_comm, ← Nat.sub_sub] at keeps

/-- A part of an expression is an expression that is no higher. -/
theorem Part.exists_expr {part : Node} {expr : Expr} (isPart : part.Part (.expr expr)) :
    ∃ inner : Expr, part = .expr inner ∧ inner.height ≤ expr.height := by
  cases isPart with
  | item member | argument _ member =>
      exact ⟨_, rfl, Nat.le_succ_of_le (Expr.height_le_heightOfList member)⟩
  | operand => exact ⟨_, rfl, Nat.le_succ _⟩
  | left | base => exact ⟨_, rfl, Nat.le_succ_of_le (Nat.le_max_left _ _)⟩
  | right | offset => exact ⟨_, rfl, Nat.le_succ_of_le (Nat.le_max_right _ _)⟩

/-- Expressions hold no blocks, so they fit in whatever room if they are low. -/
theorem fitsIn_expr {expr : Expr} (low : expr.Low) (room : Nat) : (Node.expr expr).FitsIn room := by
  intro depth inside lies
  generalize outer : Node.expr expr = node at lies
  induction lies generalizing expr with
  | self =>
      subst outer
      exact low
  | part _ isPart inductionHypothesis =>
      subst outer
      obtain ⟨inner, rfl, lower⟩ := isPart.exists_expr
      exact inductionHypothesis (Nat.le_trans lower low) rfl

end Node

namespace Parser

/-! ## Results of parsers -/

section Results

variable {α β : Type} {Holds : α → Prop}

/-- Whether everything that a parser gives has a property. -/
def Gives (parser : Parser Feed α) (Holds : α → Prop) : Prop :=
  ∀ ⦃feed final : Feed⦄ ⦃result : α⦄, parser feed = .ok (result, final) → Holds result

theorem gives_pure {value : α} (holds : Holds value) : Gives (pure value) Holds := by
  intro feed final result success
  obtain ⟨rfl, _⟩ := pure_eq_ok.mp success
  exact holds

theorem gives_unexpected (expected : String) : Gives (unexpected expected) Holds :=
  fun _ _ _ success => absurd success unexpected_ne_ok

theorem gives_tooDeep : Gives tooDeep Holds :=
  fun _ _ _ success => absurd success tooDeep_ne_ok

theorem gives_invalidStart : Gives invalidStart Holds :=
  fun _ _ _ success => absurd success invalidStart_ne_ok

theorem Gives.bind {Found : β → Prop} {parser : Parser Feed β} {next : β → Parser Feed α}
    (first : Gives parser Found) (second : ∀ value, Found value → Gives (next value) Holds) :
    Gives (parser >>= next) Holds := by
  intro feed final result success
  obtain ⟨value, middle, parsed, continued⟩ := bind_eq_ok.mp success
  exact second value (first parsed) continued

/-- What comes after a parser whose result does not matter. -/
theorem gives_after {parser : Parser Feed β} {next : β → Parser Feed α}
    (second : ∀ value, Gives (next value) Holds) : Gives (parser >>= next) Holds := by
  intro feed final result success
  obtain ⟨value, middle, _, continued⟩ := bind_eq_ok.mp success
  exact second value continued

theorem gives_ite {condition : Prop} [Decidable condition] {first second : Parser Feed α}
    (holds : condition → Gives first Holds) (fails : ¬ condition → Gives second Holds) :
    Gives (if condition then first else second) Holds := by
  split
  · next isTrue => exact holds isTrue
  · next isFalse => exact fails isFalse

theorem gives_bounded (expr : Expr) : Gives (bounded expr) Expr.Low := by
  intro feed final result success
  unfold bounded at success
  split at success
  · exact absurd success tooDeep_ne_ok
  · next low =>
      obtain ⟨rfl, _⟩ := pure_eq_ok.mp success
      exact Nat.le_of_not_lt low

end Results

/-! ## Heights -/

section Heights

variable {grammar : Grammar} {expression : Parser Feed Expr}

theorem gives_indexes (limit : Nat) {base : Expr} (low : base.Low) :
    Gives (indexes grammar expression limit base) Expr.Low := by
  induction limit generalizing base with
  | zero => exact gives_pure low
  | succ limit inductionHypothesis =>
      rw [indexes]
      refine gives_after fun _ => gives_ite (fun _ => ?_) fun _ => gives_pure low
      refine gives_after fun _ => gives_after fun offset => gives_after fun _ => ?_
      exact (gives_bounded _).bind fun indexed lowIndexed => inductionHypothesis lowIndexed

theorem low_leaf {expr : Expr} (leaf : expr.height = 1) : expr.Low := by
  rw [Expr.Low, leaf]
  decide

theorem gives_place : Gives (place grammar expression) Expr.Low := by
  refine gives_after fun name => gives_after fun _ => gives_ite (fun _ => ?_) fun _ => ?_
  · refine gives_after fun _ => gives_after fun arguments => ?_
    exact (gives_bounded _).bind fun call low => gives_indexes _ low
  · exact gives_indexes _ (low_leaf rfl)

theorem gives_primary (inner : Gives expression Expr.Low) :
    Gives (primary grammar expression) Expr.Low := by
  refine gives_after fun kind => ?_
  cases kind with
  | integer value =>
      have low : (Expr.integer value).Low := low_leaf rfl
      exact gives_after fun _ => gives_pure low
  | identifier name => exact gives_place
  | symbol sign =>
      cases sign with
      | leftParen =>
          refine gives_after fun _ => inner.bind fun expr low => ?_
          exact gives_after fun _ => gives_pure low
      | leftBracket =>
          refine gives_ite (fun _ => ?_) fun _ => gives_unexpected _
          exact gives_after fun _ => gives_after fun found => gives_bounded _
      | _ => exact gives_unexpected _
  | _ => exact gives_unexpected _

theorem gives_signed {underSign plain : Parser Feed Expr} (inner : Gives plain Expr.Low) :
    Gives (signed underSign plain) Expr.Low := by
  refine gives_after fun kind => ?_
  split
  · exact gives_after fun _ => gives_after fun operand => gives_bounded _
  · exact inner

theorem gives_chain {least : Nat} {operandAt : Nat → Parser Feed Expr} (limit : Nat) {left : Expr}
    (low : left.Low) : Gives (chain least operandAt limit left) Expr.Low := by
  induction limit generalizing left with
  | zero => exact gives_pure low
  | succ limit inductionHypothesis =>
      rw [chain]
      refine gives_after fun kind => ?_
      split
      · refine gives_ite (fun _ => gives_pure low) fun _ => ?_
        refine gives_after fun _ => gives_after fun right => ?_
        exact (gives_bounded _).bind fun joined lowJoined => inductionHypothesis lowJoined
      · exact gives_pure low

theorem gives_climb {operand : Parser Feed Expr} {operandAt : Nat → Parser Feed Expr} {least : Nat}
    (first : Gives operand Expr.Low) :
    Gives (climb grammar operand operandAt least) Expr.Low := by
  refine gives_after fun kind => gives_ite (fun _ => ?_) fun _ => ?_
  · refine gives_after fun _ => gives_after fun negated => ?_
    exact (gives_bounded _).bind fun negation low => gives_chain _ low
  · exact first.bind fun expr low => gives_chain _ low

end Heights

theorem gives_expressionAt_operand (grammar : Grammar) (room : Nat) :
    (∀ least, Gives (expressionAt grammar room least) Expr.Low) ∧
      Gives (operand grammar room) Expr.Low := by
  induction room with
  | zero => exact ⟨fun _ => gives_tooDeep, gives_signed (gives_primary gives_tooDeep)⟩
  | succ room inductionHypothesis =>
      have expressions : ∀ least, Gives (expressionAt grammar (room + 1) least) Expr.Low :=
        fun _ => gives_climb inductionHypothesis.2
      exact ⟨expressions, gives_signed (gives_primary (expressions 0))⟩

/-- An expression is low and takes room. -/
theorem gives_expression (grammar : Grammar) (room : Nat) :
    Gives (expression grammar room) fun expr => 0 < room ∧ expr.Low := by
  intro feed final expr success
  cases room with
  | zero => exact absurd success tooDeep_ne_ok
  | succ room =>
      exact ⟨Nat.succ_pos room, (gives_expressionAt_operand grammar (room + 1)).1 0 success⟩

/-! ## Nested blocks -/

/-- A statement with room left fits if its parts do. -/
theorem fitsIn_statement {statement : Statement} {room : Nat} (positive : 0 < room)
    (parts : ∀ part : Node, part.Part (.statement statement) → part.FitsIn room) :
    (Node.statement statement).FitsIn room :=
  .of_parts positive parts

/-- A block takes one unit of the room that its statements have. -/
theorem fitsIn_block {body : Block} {room : Nat}
    (statements : ∀ statement ∈ body, (Node.statement statement).FitsIn room) :
    (Node.block body).FitsIn (room + 1) := by
  refine .of_parts trivial fun part isPart => ?_
  cases isPart with
  | statement member => exact statements _ member

section Statements

variable {grammar : Grammar} {expression : Parser Feed Expr} {block : Parser Feed Block} {room : Nat}

theorem gives_assignment {target value : Expr} (lowTarget : target.Low) (positive : 0 < room)
    (lowValue : value.Low) :
    Gives (assignment target value) fun found => (Node.statement found).FitsIn room := by
  unfold assignment
  split
  · refine gives_pure (fitsIn_statement positive fun part isPart => ?_)
    cases isPart with
    | assigned => exact Node.fitsIn_expr lowValue room
  · have target := Node.fitsIn_expr lowTarget room
    refine gives_pure (fitsIn_statement positive fun part isPart => ?_)
    cases isPart with
    | storeBase => exact target.part (.base _ _)
    | storeOffset => exact target.part (.offset _ _)
    | stored => exact Node.fitsIn_expr lowValue room
  · exact fun _ _ _ success => nomatch success

variable (inner : Gives expression fun expr => 0 < room ∧ expr.Low)
  (nested : Gives block fun body => 0 < room ∧ (Node.block body).FitsIn room)

include inner in
theorem gives_assignmentOrExpression :
    Gives (assignmentOrExpression grammar expression)
      fun found => (Node.statement found).FitsIn room := by
  refine gives_after fun checkpoint => gives_place.bind fun target lowTarget => ?_
  refine gives_after fun _ => gives_ite (fun _ => ?_) fun _ => ?_
  · refine gives_after fun _ => gives_after fun _ => inner.bind fun value fits => ?_
    exact gives_assignment lowTarget fits.1 fits.2
  · refine gives_after fun _ => inner.bind fun expr fits => ?_
    refine gives_pure (fitsIn_statement fits.1 fun part isPart => ?_)
    cases isPart with
    | evaluated => exact Node.fitsIn_expr fits.2 room

include inner in
/-- A header part that is left out takes no room, so it fits only if there is
some. -/
theorem gives_headerPart (absent : Symbol) :
    Gives (headerPart grammar expression absent)
      fun found => 0 < room → (Node.statement found).FitsIn room := by
  refine gives_after fun _ => gives_ite (fun _ => gives_pure fun positive => ?_) fun _ => ?_
  · exact fitsIn_statement positive nofun
  · refine gives_place.bind fun target lowTarget => gives_after fun _ => ?_
    refine inner.bind fun value fits => ?_
    intro feed final found success _
    exact gives_assignment lowTarget fits.1 fits.2 success

include inner in
theorem gives_headerCondition :
    Gives (headerCondition expression) fun found => ∀ condition ∈ found, condition.Low := by
  refine gives_after fun _ => gives_ite (fun _ => gives_pure nofun) fun _ => ?_
  refine inner.bind fun condition fits => gives_pure ?_
  rintro _ ⟨⟩
  exact fits.2

/-- Whether a branch fits in some room, which there is. -/
def BranchFits (room : Nat) (branch : Branch) : Prop :=
  0 < room ∧ branch.condition.Low ∧ (Node.block branch.body).FitsIn room

include inner nested in
theorem gives_branch : Gives (branch expression block) (BranchFits room) := by
  refine inner.bind fun condition fits => nested.bind fun body bodyFits => ?_
  exact gives_pure ⟨fits.1, fits.2, bodyFits.2⟩

include inner nested in
theorem gives_elseIfBranches (limit : Nat) :
    Gives (elseIfBranches grammar expression block limit)
      fun branches => ∀ branch ∈ branches, BranchFits room branch := by
  induction limit with
  | zero => exact gives_pure nofun
  | succ limit inductionHypothesis =>
      rw [elseIfBranches]
      refine gives_after fun _ => gives_ite (fun _ => ?_) fun _ => gives_pure nofun
      refine gives_after fun _ => (gives_branch inner nested).bind fun first firstFits => ?_
      exact inductionHypothesis.bind fun rest restFits =>
        gives_pure (List.forall_mem_cons.mpr ⟨firstFits, restFits⟩)

theorem fitsIn_choose {first : Branch} {rest : List Branch} {otherwise : Block}
    (branches : ∀ branch ∈ first :: rest, BranchFits room branch)
    (last : (Node.block otherwise).FitsIn room) :
    (Node.statement (.choose (first :: rest) otherwise)).FitsIn room := by
  have ⟨positive, _, _⟩ := branches first List.mem_cons_self
  refine fitsIn_statement positive fun part isPart => ?_
  cases isPart with
  | condition member => exact Node.fitsIn_expr (branches _ member).2.1 room
  | guarded member => exact (branches _ member).2.2
  | otherwise => exact last

include inner nested in
theorem gives_choice :
    Gives (choice grammar expression block) fun found => (Node.statement found).FitsIn room := by
  refine gives_after fun _ => (gives_branch inner nested).bind fun first firstFits => ?_
  refine (gives_elseIfBranches inner nested _).bind fun rest restFits => ?_
  have branches := List.forall_mem_cons.mpr ⟨firstFits, restFits⟩
  refine gives_after fun _ => gives_ite (fun _ => gives_after fun _ => ?_) fun _ => ?_
  · exact nested.bind fun otherwise fits => gives_pure (fitsIn_choose branches fits.2)
  · refine gives_pure (fitsIn_choose branches (.of_parts trivial fun part isPart => ?_))
    cases isPart with
    | statement member => cases member

include inner nested in
theorem gives_loop :
    Gives (loop grammar expression block) fun found => (Node.statement found).FitsIn room := by
  refine gives_after fun _ => (gives_headerPart inner _).bind fun initial initialFits => ?_
  refine gives_after fun _ => (gives_headerCondition inner).bind fun condition low => ?_
  refine gives_after fun _ => (gives_headerPart inner _).bind fun step stepFits => ?_
  refine nested.bind fun body bodyFits => ?_
  refine gives_pure (fitsIn_statement bodyFits.1 fun part isPart => ?_)
  cases isPart with
  | initial => exact initialFits bodyFits.1
  | turns =>
      refine .of_parts trivial fun part isPart => ?_
      cases isPart with
      | turnCondition condition => exact Node.fitsIn_expr (low _ rfl) room
      | turnBody => exact bodyFits.2
      | turnStep => exact stepFits bodyFits.1

include nested in
theorem gives_declaration :
    Gives (declaration grammar block) fun found => (Node.statement found).FitsIn room := by
  refine gives_after fun _ => gives_after fun name => gives_after fun _ => ?_
  refine gives_after fun names => gives_after fun _ => nested.bind fun body fits => ?_
  refine gives_pure (fitsIn_statement fits.1 fun part isPart => ?_)
  cases isPart with
  | declared => exact fits.2

include inner in
theorem gives_giveBack :
    Gives (giveBack expression) fun found => (Node.statement found).FitsIn room := by
  refine gives_after fun _ => inner.bind fun value fits => ?_
  refine gives_pure (fitsIn_statement fits.1 fun part isPart => ?_)
  cases isPart with
  | returned => exact Node.fitsIn_expr fits.2 room

include inner nested in
theorem gives_statement :
    Gives (statement grammar expression block)
      fun found => (Node.statement found).FitsIn room := by
  have bare : Gives (bareStatement grammar expression block)
      fun found => (Node.statement found).FitsIn room := by
    refine gives_after fun kind => ?_
    split
    · exact gives_assignmentOrExpression inner
    · exact gives_ite (fun _ => gives_choice inner nested) fun _ => gives_invalidStart
    · exact gives_ite (fun _ => gives_loop inner nested) fun _ => gives_invalidStart
    · exact gives_ite (fun _ => gives_declaration nested) fun _ => gives_invalidStart
    · exact gives_ite (fun _ => gives_giveBack inner) fun _ => gives_invalidStart
    · exact gives_invalidStart
  exact bare.bind fun found fits => gives_after fun _ => gives_pure fits

end Statements

section Sequences

variable {statement : Parser Feed Statement} {room : Nat}
  (inner : Gives statement fun found => (Node.statement found).FitsIn room)

include inner in
theorem gives_statementsInBlock (limit : Nat) :
    Gives (statementsInBlock statement limit)
      fun body => ∀ found ∈ body, (Node.statement found).FitsIn room := by
  induction limit with
  | zero => exact gives_pure nofun
  | succ limit inductionHypothesis =>
      rw [statementsInBlock]
      refine gives_after fun kind => ?_
      split
      · exact gives_pure nofun
      · exact gives_unexpected _
      · refine inner.bind fun first firstFits => inductionHypothesis.bind fun rest restFits => ?_
        exact gives_pure (List.forall_mem_cons.mpr ⟨firstFits, restFits⟩)

include inner in
theorem gives_statementsToEnd (limit : Nat) :
    Gives (statementsToEnd statement limit)
      fun body => ∀ found ∈ body, (Node.statement found).FitsIn room := by
  induction limit with
  | zero => exact gives_pure nofun
  | succ limit inductionHypothesis =>
      rw [statementsToEnd]
      refine gives_after fun _ => gives_ite (fun _ => gives_pure nofun) fun _ => ?_
      refine inner.bind fun first firstFits => inductionHypothesis.bind fun rest restFits => ?_
      exact gives_pure (List.forall_mem_cons.mpr ⟨firstFits, restFits⟩)

end Sequences

theorem gives_block (grammar : Grammar) (room : Nat) :
    Gives (block grammar room) fun body => 0 < room ∧ (Node.block body).FitsIn room := by
  induction room with
  | zero => exact gives_tooDeep
  | succ room inductionHypothesis =>
      have inner : Gives (statement grammar (expression grammar room) (block grammar room))
          fun found => (Node.statement found).FitsIn room :=
        gives_statement (gives_expression grammar room) inductionHypothesis
      rw [block]
      refine gives_after fun _ => gives_after fun _ => ?_
      refine (gives_statementsInBlock inner _).bind fun body fits => ?_
      exact gives_after fun _ => gives_after fun _ =>
        gives_pure ⟨Nat.succ_pos room, fitsIn_block fits⟩

/-- The program around its statements is one block more than those that take
room. -/
theorem gives_program (grammar : Grammar) :
    Gives (program grammar) fun body => (Node.block body).FitsIn (maxNesting + 1) := by
  have inner : Gives
      (statement grammar (expression grammar maxNesting) (block grammar maxNesting))
      fun found => (Node.statement found).FitsIn maxNesting :=
    gives_statement (gives_expression grammar maxNesting) (gives_block grammar maxNesting)
  refine gives_after fun _ => ?_
  intro feed final body success
  exact fitsIn_block (gives_statementsToEnd inner _ success)

end Parser

/-! ## Accepted programs -/

/-- Whether a program is as the grammar makes it under a feature set, with
expressions that are not too high and statements that are not nested too deeply.
The program is itself a block around its statements. -/
structure Block.WellFormed (features : FeatureSet) (body : Block) : Prop where
  nodes : (Node.block body).Everywhere (Node.WellFormed features)
  low : ∀ expr : Expr, (Node.expr expr).Within (.block body) → expr.height ≤ maxNesting
  shallow : ∀ (depth : Nat) (statement : Statement),
    Node.LiesIn depth (.statement statement) (.block body) → depth ≤ maxNesting

variable {features : FeatureSet} {source : String}

theorem fitsIn_of_parse {body : Block} (parsed : parse features source = .ok body) :
    (Node.block body).FitsIn (maxNesting + 1) := by
  obtain ⟨feed, final, _, _, outcome⟩ := program_of_parse parsed
  exact Parser.gives_program _ outcome

/-- Every accepted program is well formed. -/
theorem parse_gives_wellFormed {body : Block} (parsed : parse features source = .ok body) :
    body.WellFormed features := by
  have fits := fitsIn_of_parse parsed
  refine ⟨wellFormed_of_parse parsed, ?_, ?_⟩
  · intro expr within
    obtain ⟨depth, lies⟩ := Node.exists_liesIn_of_within within
    exact fits depth _ lies
  · intro depth statement lies
    have left : 0 < maxNesting + 1 - depth := fits depth _ lies
    omega

/-- A loop without header parts around a chain of two branches, one of which only
reads and the other stores. -/
theorem parse_gives_wellFormed_guardedStore :
    parse FeatureSet.all "for ;i<2;\x7bif i \x7bf(a)[0]\x7d elif j \x7ba[0]=[]\x7d\x7d" =
      .ok [.loop .skip (some (.binary .less (.name "i") (.integer 2))) .skip
        [.choose
          [.mk (.name "i") [.evaluate (.index (.call "f" [.name "a"]) (.integer 0))],
            .mk (.name "j") [.store (.name "a") (.integer 0) (.array [])]] []]] ∧
    Block.WellFormed FeatureSet.all
      [.loop .skip (some (.binary .less (.name "i") (.integer 2))) .skip
        [.choose
          [.mk (.name "i") [.evaluate (.index (.call "f" [.name "a"]) (.integer 0))],
            .mk (.name "j") [.store (.name "a") (.integer 0) (.array [])]] []]] := by
  have parsed : parse FeatureSet.all
      "for ;i<2;\x7bif i \x7bf(a)[0]\x7d elif j \x7ba[0]=[]\x7d\x7d" =
      .ok [.loop .skip (some (.binary .less (.name "i") (.integer 2))) .skip
        [.choose
          [.mk (.name "i") [.evaluate (.index (.call "f" [.name "a"]) (.integer 0))],
            .mk (.name "j") [.store (.name "a") (.integer 0) (.array [])]] []]] := by
    decide +kernel
  exact ⟨parsed, parse_gives_wellFormed parsed⟩

end Scriptlet
