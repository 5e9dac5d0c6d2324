import Scriptlet.Proofs.Canonical.RoundTrip
import Scriptlet.Proofs.Parser.Shape

/-!
Contract: canonical text needs no more room than the text it comes from.

Owns:
- canonical operands stand in parentheses exactly where their levels force it,
  negations right under `and` and `or` apart;
- what the canonical tokens of a tree ask for is the least that any tokens ask
  for that derive it;
- without those negations the canonical text of a compiled program compiles, so
  it does not meet the nesting limit.

Tokens that derive a tree may have more parentheses than the canonical ones, each
of which takes room; a negation right under `and` or `or` is the one place where
the canonical tokens have parentheses that the grammar does not ask for.
-/

namespace Scriptlet

/-- Whether a node puts no negation by `not` right under `and` or `or`. -/
def Node.ConnectsNoNegation : Node → Prop
  | .expr (.binary operator left right) =>
      operator = .and ∨ operator = .or → left.isNot = false ∧ right.isNot = false
  | _ => True

/-! ## Parentheses that levels force -/

namespace Expr

theorem level_of_isNot {expr : Expr} (negated : expr.isNot = true) : expr.level = notLevel := by
  cases expr with
  | unary operator =>
      cases operator with
      | not => rfl
      | negate | plus => cases negated
  | _ => cases negated

theorem needsParensUnderNot_eq (operand : Expr) :
    operand.needsParensUnderNot = decide (operand.level < notLevel) := by
  cases operand with
  | unary operator => cases operator <;> rfl
  | binary | integer | name | array | index | call => rfl

theorem needsParensUnderSign_eq (operand : Expr) :
    operand.needsParensUnderSign = decide (operand.level < operandLevel) := by
  cases operand with
  | binary operator =>
      simp [needsParensUnderSign, binaryLevel?, level, operator.level_lt_operandLevel]
  | unary operator => cases operator <;> rfl
  | integer | name | array | index | call => rfl

/-- Only binary operators bind looser than an operand that is no negation. -/
theorem any_binaryLevel?_eq {operand : Expr} {bound : Nat} (plain : operand.isNot = false)
    (atMost : bound ≤ operandLevel) :
    operand.binaryLevel?.any (· < bound) = decide (operand.level < bound) := by
  have notLooser := Nat.not_lt.mpr atMost
  cases operand with
  | binary => rfl
  | unary operator =>
      cases operator with
      | not => cases plain
      | negate | plus => simp [binaryLevel?, level, notLooser]
  | _ => simp [binaryLevel?, level, notLooser]

/-- A negation needs parentheses under every operator but `and` and `or`, which
are the only ones that bind looser. -/
theorem level_lt_of_isNot {operator : BinaryOperator} {operand : Expr}
    (connects : operator = .and ∨ operator = .or → operand.isNot = false)
    (negated : operand.isNot = true) : operand.level < operator.level := by
  rw [level_of_isNot negated]
  cases operator with
  | and => simp [negated] at connects
  | or => simp [negated] at connects
  | _ => decide

theorem needsParensLeft_eq {operator : BinaryOperator} {operand : Expr}
    (connects : operator = .and ∨ operator = .or → operand.isNot = false) :
    operand.needsParensLeft operator = decide (operand.level < operator.level) := by
  cases negated : operand.isNot with
  | true => simp [needsParensLeft, negated, level_lt_of_isNot connects negated]
  | false =>
      have below := Nat.le_of_lt operator.level_lt_operandLevel
      rw [needsParensLeft, negated, Bool.false_or, any_binaryLevel?_eq negated below]

theorem needsParensRight_eq {operator : BinaryOperator} {operand : Expr}
    (connects : operator = .and ∨ operator = .or → operand.isNot = false) :
    operand.needsParensRight operator = decide (operand.level < operator.level + 1) := by
  cases negated : operand.isNot with
  | true =>
      have below := level_lt_of_isNot connects negated
      simp [needsParensRight, negated, Nat.lt_succ_of_lt below]
  | false =>
      rw [← any_binaryLevel?_eq negated operator.level_lt_operandLevel, needsParensRight, negated,
        Bool.false_or]
      simp only [Nat.lt_succ_iff]

end Expr

/-! ## What canonical tokens of expressions ask for -/

namespace Parser

variable {features : FeatureSet}

/-- The parser completes tokens of a form, and they ask for no more than the form
does. -/
def CompletesLeast (features : FeatureSet) (tokens : List TokenKind) (form : ExprForm) : Prop :=
  ∃ demand, Completes features demand tokens form ∧ (leastDemand form).Covers demand

theorem CompletesLeast.ofOperand {tokens : List TokenKind} {expr : Expr}
    (derived : ExprForm.Derives features tokens (.operand expr))
    (complete : CompletesLeast features tokens (.operand expr)) :
    CompletesLeast features tokens (.expression operandLevel expr) := by
  obtain ⟨_, complete, least⟩ := complete
  refine ⟨_, completes_ofOperand derived complete, ?_⟩
  rintro (_ | room) ⟨nests, low⟩
  · have := expr.one_le_nesting
    omega
  · exact least ⟨Nat.sub_le_iff_le_add.mpr nests, low⟩

/-- An expression that needs parentheses at both of two levels, or at neither, asks
for as much at both. -/
theorem CompletesLeast.loosen {tokens : List TokenKind} {looser level : Nat} {expr : Expr}
    (complete : CompletesLeast features tokens (.expression level expr)) (below : looser ≤ level)
    (same : expr.enclosure looser = expr.enclosure level) :
    CompletesLeast features tokens (.expression looser expr) := by
  obtain ⟨_, complete, least⟩ := complete
  refine ⟨_, complete.loosen below, fun room fits => least ?_⟩
  rw [leastDemand, same] at fits
  exact fits

/-- Parentheses around an expression that is no operand are forced. -/
theorem CompletesLeast.parentheses {tokens : List TokenKind} {expr : Expr}
    (complete : CompletesLeast features tokens (.expression 1 expr))
    (forced : expr.level < operandLevel) :
    CompletesLeast features (.symbol .leftParen :: (tokens ++ [.symbol .rightParen]))
      (.operand expr) := by
  obtain ⟨_, complete, least⟩ := complete
  refine ⟨_, completes_parentheses complete, fun room fits => least ?_⟩
  have one : expr.enclosure operandLevel = 1 := if_pos forced
  have none : expr.enclosure 1 = 0 := Expr.enclosure_of_le expr.one_le_level
  obtain ⟨nests, low⟩ := fits
  rw [one] at nests
  refine ⟨?_, low⟩
  rw [none]
  exact nests

theorem CompletesLeast.binary {leftTokens rightTokens : List TokenKind} {left right : Expr}
    {operator : BinaryOperator}
    (leftComplete : CompletesLeast features leftTokens (.expression operator.level left))
    (rightComplete : CompletesLeast features rightTokens
      (.expression (operator.level + 1) right)) :
    CompletesLeast features (leftTokens ++ operator.token :: rightTokens)
      (.expression operator.level (.binary operator left right)) := by
  obtain ⟨_, leftComplete, leftLeast⟩ := leftComplete
  obtain ⟨_, rightComplete, rightLeast⟩ := rightComplete
  refine ⟨_, completes_binary leftComplete rightComplete, ?_⟩
  rintro room ⟨nests, low⟩
  have nestsInside := Nat.max_le.mp (Nat.le_trans (Nat.le_add_right _ _) nests)
  have leftLow := Nat.le_trans (Nat.le_succ_of_le (Nat.le_max_left _ right.height)) low
  have rightLow := Nat.le_trans (Nat.le_succ_of_le (Nat.le_max_right left.height _)) low
  cases room with
  | zero => exact absurd nestsInside.2 (Nat.not_succ_le_zero _)
  | succ room =>
      exact ⟨leftLeast ⟨nestsInside.1, leftLow⟩,
        rightLeast ⟨Nat.le_of_succ_le_succ nestsInside.2, rightLow⟩, low⟩

theorem CompletesLeast.negation {tokens : List TokenKind} {expr : Expr}
    (complete : CompletesLeast features tokens (.expression notLevel expr)) :
    CompletesLeast features (.keyword .not :: tokens)
      (.expression notLevel (.unary .not expr)) := by
  obtain ⟨_, complete, least⟩ := complete
  refine ⟨_, completes_negation complete, ?_⟩
  rintro room ⟨nests, low⟩
  have nestsInside := Nat.le_trans (Nat.le_add_right _ _) nests
  have innerLow := Nat.le_of_succ_le low
  cases room with
  | zero => exact absurd nestsInside (Nat.not_succ_le_zero _)
  | succ room => exact ⟨least ⟨Nat.le_of_succ_le_succ nestsInside, innerLow⟩, low⟩

theorem CompletesLeast.sign {tokens : List TokenKind} {expr : Expr} {operator : UnaryOperator}
    (isSign : operator ≠ .not) (complete : CompletesLeast features tokens (.operand expr)) :
    CompletesLeast features (operator.token :: tokens) (.operand (.unary operator expr)) := by
  obtain ⟨_, complete, least⟩ := complete
  refine ⟨_, completes_sign isSign complete, ?_⟩
  rintro room ⟨nests, low⟩
  rw [Expr.nesting, UnaryOperator.level_of_sign isSign] at nests
  have innerLow := Nat.le_of_succ_le low
  have innerNests := expr.one_le_nesting
  cases room with
  | zero => omega
  | succ room => exact ⟨least ⟨by omega, innerLow⟩, low⟩

theorem CompletesLeast.ofPlace {tokens : List TokenKind} {expr : Expr}
    (derived : ExprForm.Derives features tokens (.place expr))
    (complete : CompletesLeast features tokens (.place expr)) :
    CompletesLeast features tokens (.operand expr) := by
  obtain ⟨_, complete, least⟩ := complete
  refine ⟨_, completes_ofPlace derived complete, fun room fits => least ⟨?_, fits.2⟩⟩
  have nests := fits.1
  rw [Expr.enclosure_of_le (Nat.le_of_eq derived.level_of_place.symm)] at nests
  exact nests

theorem CompletesLeast.array {tokens : List TokenKind} {exprs : List Expr}
    (allowed : Feature.array ∈ features)
    (complete : CompletesLeast features tokens (.list exprs)) :
    CompletesLeast features (.symbol .leftBracket :: (tokens ++ [.symbol .rightBracket]))
      (.operand (.array exprs)) := by
  obtain ⟨_, complete, least⟩ := complete
  refine ⟨_, completes_array allowed complete, fun room fits => ?_⟩
  exact ⟨least ⟨fits.1, Nat.le_of_succ_le fits.2⟩, fits.2⟩

theorem CompletesLeast.call {tokens : List TokenKind} {arguments : List Expr} (name : String)
    (allowed : Feature.function ∈ features)
    (complete : CompletesLeast features tokens (.list arguments)) :
    CompletesLeast features
      (.identifier name :: .symbol .leftParen :: (tokens ++ [.symbol .rightParen]))
      (.place (.call name arguments)) := by
  obtain ⟨_, complete, least⟩ := complete
  refine ⟨_, completes_call name allowed complete, fun room fits => ?_⟩
  exact ⟨least ⟨fits.1, Nat.le_of_succ_le fits.2⟩, fits.2⟩

theorem CompletesLeast.index {baseTokens offsetTokens : List TokenKind} {base offset : Expr}
    (allowed : Feature.array ∈ features)
    (baseComplete : CompletesLeast features baseTokens (.place base))
    (offsetComplete : CompletesLeast features offsetTokens (.expression 1 offset)) :
    CompletesLeast features
      (baseTokens ++ .symbol .leftBracket :: (offsetTokens ++ [.symbol .rightBracket]))
      (.place (.index base offset)) := by
  obtain ⟨_, baseComplete, baseLeast⟩ := baseComplete
  obtain ⟨_, offsetComplete, offsetLeast⟩ := offsetComplete
  refine ⟨_, completes_index allowed baseComplete offsetComplete, ?_⟩
  rintro room ⟨nests, low⟩
  have baseLow := Nat.le_trans (Nat.le_succ_of_le (Nat.le_max_left _ offset.height)) low
  have offsetLow := Nat.le_trans (Nat.le_succ_of_le (Nat.le_max_right base.height _)) low
  have free : offset.enclosure 1 = 0 := Expr.enclosure_of_le offset.one_le_level
  rw [Expr.nesting] at nests
  exact ⟨baseLeast ⟨by omega, baseLow⟩, offsetLeast ⟨by omega, offsetLow⟩, low⟩

theorem CompletesLeast.one {tokens : List TokenKind} {expr : Expr}
    (complete : CompletesLeast features tokens (.expression 1 expr)) :
    CompletesLeast features tokens (.items [expr]) := by
  obtain ⟨_, complete, least⟩ := complete
  refine ⟨_, completes_one complete, ?_⟩
  rintro room ⟨nests, low⟩
  rw [Expr.nestingOfList, Expr.nestingOfList, Nat.max_zero] at nests
  refine least ⟨?_, (Nat.max_le.mp low).1⟩
  rw [Expr.enclosure_of_le expr.one_le_level]
  exact nests

theorem CompletesLeast.more {firstTokens restTokens : List TokenKind} {expr : Expr}
    {exprs : List Expr}
    (firstComplete : CompletesLeast features firstTokens (.expression 1 expr))
    (restComplete : CompletesLeast features restTokens (.items exprs)) :
    CompletesLeast features (firstTokens ++ .symbol .comma :: restTokens)
      (.items (expr :: exprs)) := by
  obtain ⟨_, firstComplete, firstLeast⟩ := firstComplete
  obtain ⟨_, restComplete, restLeast⟩ := restComplete
  refine ⟨_, completes_more firstComplete restComplete, ?_⟩
  rintro room ⟨nests, low⟩
  obtain ⟨firstNests, restNests⟩ := Nat.max_le.mp nests
  obtain ⟨firstLow, restLow⟩ := Nat.max_le.mp low
  refine ⟨firstLeast ⟨?_, firstLow⟩, restLeast ⟨restNests, restLow⟩⟩
  rw [Expr.enclosure_of_le expr.one_le_level]
  exact firstNests

end Parser

namespace Expr

variable {features : FeatureSet}

/-- The canonical tokens of an expression ask for the least at its level, and as an
operand if they can stand as one. -/
def CompletesCanonically (features : FeatureSet) (expr : Expr) : Prop :=
  Parser.CompletesLeast features expr.tokens (.expression expr.level expr) ∧
    (expr.level = operandLevel → Parser.CompletesLeast features expr.tokens (.operand expr))

theorem CompletesCanonically.ofOperand {expr : Expr} (isOperand : expr.level = operandLevel)
    (derived : ExprForm.Derives features expr.tokens (.operand expr))
    (complete : Parser.CompletesLeast features expr.tokens (.operand expr)) :
    expr.CompletesCanonically features := by
  refine ⟨?_, fun _ => complete⟩
  rw [isOperand]
  exact complete.ofOperand derived

theorem CompletesCanonically.ofLooser {expr : Expr} (looser : expr.level < operandLevel)
    (complete : Parser.CompletesLeast features expr.tokens (.expression expr.level expr)) :
    expr.CompletesCanonically features :=
  ⟨complete, fun isOperand => absurd isOperand (Nat.ne_of_lt looser)⟩

theorem CompletesCanonically.loosest {expr : Expr}
    (canonical : expr.CompletesCanonically features) :
    Parser.CompletesLeast features expr.tokens (.expression 1 expr) := by
  refine canonical.1.loosen expr.one_le_level ?_
  rw [enclosure_of_le expr.one_le_level, enclosure_of_le (Nat.le_refl _)]

/-- With parentheses where its level forces them, an expression asks for the least
at a level. -/
theorem CompletesCanonically.parenthesized {expr : Expr}
    (canonical : expr.CompletesCanonically features)
    (derived : ExprForm.Derives features expr.tokens (.expression 1 expr)) {level : Nat}
    {needed : Bool} (below : level ≤ operandLevel) (exact : needed = decide (expr.level < level)) :
    Parser.CompletesLeast features (parenthesizeTokens needed expr.tokens)
      (.expression level expr) := by
  subst exact
  by_cases forced : expr.level < level
  · have isLooser : expr.level < operandLevel := Nat.lt_of_lt_of_le forced below
    have inParens := (canonical.loosest.parentheses isLooser).ofOperand (.parentheses derived)
    rw [parenthesizeTokens, decide_eq_true forced, if_pos rfl]
    refine inParens.loosen below ?_
    rw [enclosure, enclosure, if_pos forced, if_pos isLooser]
  · have free := Nat.not_lt.mp forced
    rw [parenthesizeTokens, decide_eq_false forced]
    refine canonical.1.loosen free ?_
    rw [enclosure_of_le free, enclosure_of_le (Nat.le_refl _)]

theorem CompletesCanonically.underSign {expr : Expr}
    (canonical : expr.CompletesCanonically features) :
    Parser.CompletesLeast features (parenthesizeTokens expr.needsParensUnderSign expr.tokens)
      (.operand expr) := by
  rw [needsParensUnderSign_eq]
  by_cases forced : expr.level < operandLevel
  · rw [parenthesizeTokens, decide_eq_true forced, if_pos rfl]
    exact canonical.loosest.parentheses forced
  · rw [parenthesizeTokens, decide_eq_false forced]
    exact canonical.2 (Nat.le_antisymm expr.level_le_operandLevel (Nat.not_lt.mp forced))

end Expr

namespace ExprForm

variable {features : FeatureSet}

/-- The canonical tokens of a form ask for the least. -/
def CompletesCanonically (features : FeatureSet) : ExprForm → Prop
  | .expression _ expr | .operand expr => expr.CompletesCanonically features
  | .place expr => Parser.CompletesLeast features expr.tokens (.place expr)
  | .list exprs => Parser.CompletesLeast features (Expr.listTokens exprs) (.list exprs)
  | .items exprs => Parser.CompletesLeast features (Expr.listTokens exprs) (.items exprs)

/-- The canonical tokens of a derived tree ask for the least, if it has no negation
right under `and` or `or`. -/
theorem Derives.completesCanonically {tokens : List TokenKind} {form : ExprForm}
    (derived : Derives features tokens form)
    (connects : ∀ expr ∈ form.exprs, (Node.expr expr).Everywhere Node.ConnectsNoNegation) :
    form.CompletesCanonically features := by
  induction derived with
  | ofOperand _ operand => exact operand connects
  | ofTighter _ _ tighter => exact tighter connects
  | parentheses _ inner => exact inner connects
  | @binary _ _ left right operator first second leftComplete rightComplete =>
      rw [exprs, List.forall_mem_singleton] at connects
      have here := connects _ .refl
      have below := operator.level_lt_operandLevel
      have leftCanonical :=
        leftComplete (List.forall_mem_singleton.mpr (connects.part (.left operator left right)))
      have rightCanonical :=
        rightComplete (List.forall_mem_singleton.mpr (connects.part (.right operator left right)))
      exact .ofLooser below (.binary
        (leftCanonical.parenthesized first.canonical.derives (Nat.le_of_lt below)
          (Expr.needsParensLeft_eq fun connecting => (here connecting).1))
        (rightCanonical.parenthesized second.canonical.derives below
          (Expr.needsParensRight_eq fun connecting => (here connecting).2)))
  | @negation _ expr negated complete =>
      rw [exprs, List.forall_mem_singleton] at connects
      have canonical :=
        complete (List.forall_mem_singleton.mpr (connects.part (.operand .not expr)))
      exact .ofLooser (show notLevel < operandLevel by decide) (.negation
        (canonical.parenthesized negated.canonical.derives (by decide)
          expr.needsParensUnderNot_eq))
  | @sign _ expr operator isSign under complete =>
      rw [exprs, List.forall_mem_singleton] at connects
      have canonical :=
        complete (List.forall_mem_singleton.mpr (connects.part (.operand operator expr)))
      have derived := (Derives.sign isSign under).canonical.2
      cases operator with
      | not => contradiction
      | negate => exact .ofOperand rfl (derived rfl) (.sign isSign canonical.underSign)
      | plus => exact .ofOperand rfl (derived rfl) (.sign isSign canonical.underSign)
  | integer value =>
      exact .ofOperand rfl (.integer value) ⟨_, Parser.completes_integer value, fun _ _ => trivial⟩
  | @ofPlace _ expr place complete =>
      have derived := place.canonical.2
      exact .ofOperand place.level_of_place (.ofPlace derived) ((complete connects).ofPlace derived)
  | @array _ items allowed inner complete =>
      rw [exprs, List.forall_mem_singleton] at connects
      have canonical := complete fun item member => connects.part (.item member)
      exact .ofOperand rfl (.array allowed inner.canonical) (.array allowed canonical)
  | name name => exact ⟨_, Parser.completes_name name, fun _ _ => trivial⟩
  | call name allowed _ complete =>
      rw [exprs, List.forall_mem_singleton] at connects
      have canonical := complete fun argument member => connects.part (.argument name member)
      exact .call name allowed canonical
  | @index _ _ base offset allowed _ _ baseComplete offsetComplete =>
      rw [exprs, List.forall_mem_singleton] at connects
      have baseCanonical :=
        baseComplete (List.forall_mem_singleton.mpr (connects.part (.base base offset)))
      have offsetCanonical :=
        offsetComplete (List.forall_mem_singleton.mpr (connects.part (.offset base offset)))
      exact .index allowed baseCanonical offsetCanonical.loosest
  | empty => exact ⟨_, Parser.completes_empty, fun _ _ => trivial⟩
  | nonempty found complete =>
      obtain ⟨_, canonical, least⟩ := complete connects
      exact ⟨_, Parser.completes_nonempty found.canonical canonical, least⟩
  | one _ complete => exact (complete connects).loosest.one
  | @more _ _ expr exprs _ rest firstComplete restComplete =>
      obtain ⟨firstConnects, restConnects⟩ := List.forall_mem_cons.mp connects
      obtain ⟨next, later, rfl⟩ := List.exists_cons_of_ne_nil rest.exprs_ne_nil
      have firstCanonical := firstComplete (List.forall_mem_singleton.mpr firstConnects)
      exact firstCanonical.loosest.more (restComplete restConnects)

end ExprForm

/-- Tokens that ask for the least ask for no more than other tokens that derive the
same form. -/
theorem Parser.CompletesLeast.exists_lighter {features : FeatureSet}
    {tokens other : List TokenKind} {form : ExprForm}
    (complete : CompletesLeast features other form)
    (derived : ExprForm.Derives features tokens form) :
    ∃ demand lighter, Completes features demand tokens form ∧
      Completes features lighter other form ∧ demand.Covers lighter := by
  obtain ⟨demand, asDerived, covers⟩ := exists_completes derived
  obtain ⟨lighter, complete, least⟩ := complete
  exact ⟨demand, lighter, asDerived, complete, covers.trans least⟩

/-! ## What canonical tokens of statements ask for -/

namespace StatementForm

open Scriptlet.Parser

variable {features : FeatureSet}

/-- The parser completes the canonical tokens of a form with a demand. -/
def CompletesCanonically (features : FeatureSet) (demand : Demand) : StatementForm → Prop
  | .assignment tree =>
      CompletesStatement features demand tree.tokens (.assignment tree)
  | .headerPart tree => CompletesStatement features demand tree.tokens (.headerPart tree)
  | .headerCondition condition =>
      CompletesStatement features demand ((condition.map Expr.tokens).getD [])
        (.headerCondition condition)
  | .elseIfs branches =>
      CompletesStatement features demand (Statement.branchTokens .elseIf branches)
        (.elseIfs branches)
  | .otherwise body =>
      CompletesStatement features demand
        (if body.isEmpty then []
          else .keyword .otherwise :: inBraceTokens (Statement.linesTokens body))
        (.otherwise body)
  | .bare tree | .statement tree =>
      CompletesStatement features demand tree.tokens (.bare tree)
  | .statements body =>
      CompletesStatement features demand (Statement.linesTokens body) (.statements body)
  | .block body =>
      CompletesBlock features demand (inBraceTokens (Statement.linesTokens body)) body

theorem Derives.exists_lighter_expression {tokens : List TokenKind} {expr : Expr}
    (derived : ExprForm.Derives features tokens (.expression 1 expr))
    (connects : (Node.expr expr).Everywhere Node.ConnectsNoNegation) :
    ∃ demand lighter, Completes features demand tokens (.expression 1 expr) ∧
      Completes features lighter expr.tokens (.expression 1 expr) ∧
      demand.Covers lighter :=
  have canonical := derived.completesCanonically (List.forall_mem_singleton.mpr connects)
  canonical.loosest.exists_lighter derived

/-- What holds everywhere in a chain of conditions does so in its further branches. -/
theorem everywhere_elseIfs {Holds : Node → Prop} {first : Branch} {branches : List Branch}
    {otherwise : Block}
    (everywhere : (Node.statement (.choose (first :: branches) otherwise)).Everywhere Holds) :
    ∀ node ∈ (StatementForm.elseIfs branches).nodes, node.Everywhere Holds := by
  intro node member
  obtain ⟨branch, isBranch, member⟩ := List.mem_flatMap.mp member
  have isOne := List.mem_cons_of_mem first isBranch
  rcases List.mem_cons.mp member with rfl | member
  · exact everywhere.part (.condition isOne otherwise)
  · rw [List.mem_singleton.mp member]
    exact everywhere.part (.guarded isOne otherwise)

theorem everywhere_headerCondition {Holds : Node → Prop} {condition : Option Expr}
    {step : Statement} {body : Block}
    (everywhere : (Node.loop condition step body).Everywhere Holds) :
    ∀ node ∈ (StatementForm.headerCondition condition).nodes, node.Everywhere Holds := by
  cases condition with
  | none => exact fun _ member => absurd member List.not_mem_nil
  | some condition =>
      exact List.forall_mem_singleton.mpr (everywhere.part (.turnCondition condition step body))

theorem everywhere_tail {Holds : Node → Prop} {statement : Statement} {block : Block}
    (holds : Holds (.block block))
    (everywhere : (Node.block (statement :: block)).Everywhere Holds) :
    (Node.block block).Everywhere Holds := by
  refine .of_parts holds fun part isPart => ?_
  cases isPart with
  | statement member => exact everywhere.part (.statement (List.mem_cons_of_mem _ member))

/-- Whatever tokens derive a tree without negations right under `and` and `or`, its
canonical tokens ask for no more than they do. -/
theorem Derives.exists_lighter {tokens : List TokenKind} {form : StatementForm}
    (derived : Derives features tokens form)
    (connects : ∀ node ∈ form.nodes, node.Everywhere Node.ConnectsNoNegation) :
    ∃ demand lighter, CompletesStatement features demand tokens form ∧
      form.CompletesCanonically features lighter ∧ demand.Covers lighter := by
  induction derived with
  | assign name second =>
      rw [nodes, List.forall_mem_singleton] at connects
      obtain ⟨_, _, complete, canonical, covers⟩ :=
        exists_lighter_expression second (connects.part (.assigned _ _))
      exact ⟨_, _, completes_assignment (completes_name name) complete rfl,
        completes_assignment (completes_name name) canonical rfl, (Demand.Covers.refl _).and covers⟩
  | @store _ _ base offset value first second =>
      rw [nodes, List.forall_mem_singleton] at connects
      have target : (Node.expr (.index base offset)).Everywhere Node.ConnectsNoNegation := by
        refine .of_parts trivial fun part isPart => ?_
        cases isPart with
        | base => exact connects.part (.storeBase _ _ _)
        | offset => exact connects.part (.storeOffset _ _ _)
      obtain ⟨_, _, targetComplete, targetCanonical, targetCovers⟩ :=
        (first.completesCanonically (List.forall_mem_singleton.mpr target)).exists_lighter first
      obtain ⟨_, _, valueComplete, valueCanonical, valueCovers⟩ :=
        exists_lighter_expression second (connects.part (.stored _ _ _))
      exact ⟨_, _, completes_assignment targetComplete valueComplete rfl,
        completes_assignment targetCanonical valueCanonical rfl, targetCovers.and valueCovers⟩
  | noPart => exact ⟨_, _, completes_noPart, completes_noPart, .refl _⟩
  | somePart derived part =>
      obtain ⟨_, _, complete, canonical, covers⟩ := part connects
      exact ⟨_, _, completes_somePart derived complete,
        completes_somePart derived.canonical canonical, covers⟩
  | noCondition => exact ⟨_, _, completes_noCondition, completes_noCondition, .refl _⟩
  | someCondition found =>
      obtain ⟨_, _, complete, canonical, covers⟩ :=
        exists_lighter_expression found (List.forall_mem_singleton.mp connects)
      exact ⟨_, _, completes_someCondition found complete,
        completes_someCondition found.canonical.derives canonical, covers⟩
  | noElseIf => exact ⟨_, _, completes_noElseIf, completes_noElseIf, .refl _⟩
  | elseIf allowed test block chain guarded rest =>
      obtain ⟨testConnects, others⟩ := List.forall_mem_cons.mp connects
      obtain ⟨bodyConnects, restConnects⟩ := List.forall_mem_cons.mp others
      obtain ⟨_, _, testComplete, testCanonical, testCovers⟩ :=
        exists_lighter_expression test testConnects
      obtain ⟨_, _, bodyComplete, bodyCanonical, bodyCovers⟩ :=
        guarded (List.forall_mem_singleton.mpr bodyConnects)
      obtain ⟨_, _, restComplete, restCanonical, restCovers⟩ := rest restConnects
      exact ⟨_, _,
        completes_elseIf allowed testComplete (head?_block block) chain bodyComplete restComplete,
        completes_elseIf allowed testCanonical rfl chain.canonical bodyCanonical restCanonical,
        (testCovers.and bodyCovers).and restCovers⟩
  | noOtherwise => exact ⟨.nothing, .nothing, .inl ⟨rfl, rfl, rfl⟩, .inl ⟨rfl, rfl, rfl⟩, .refl _⟩
  | @someOtherwise _ body _ found =>
      obtain ⟨_, _, complete, canonical, covers⟩ := found connects
      cases body with
      | nil => exact ⟨_, .nothing, .inr ⟨_, rfl, complete⟩, .inl ⟨rfl, rfl, rfl⟩, fun _ _ => trivial⟩
      | cons => exact ⟨_, _, .inr ⟨_, rfl, complete⟩, .inr ⟨_, rfl, canonical⟩, covers⟩
  | ofAssignment derived assigned =>
      obtain ⟨_, _, complete, canonical, covers⟩ := assigned connects
      exact ⟨_, _, completes_ofAssignment derived complete,
        completes_ofAssignment derived.canonical canonical, covers⟩
  | evaluate evaluated head =>
      rw [nodes, List.forall_mem_singleton] at connects
      obtain ⟨_, _, complete, canonical, covers⟩ :=
        exists_lighter_expression evaluated (connects.part (.evaluated _))
      exact ⟨_, _, completes_evaluate evaluated complete head,
        completes_evaluate evaluated.canonical.derives canonical
          (evaluated.keepsIdentifier _ head).2.2, covers⟩
  | @choose _ _ _ _ condition body otherwise branches allowed test block chain _ guarded rest last =>
      rw [nodes, List.forall_mem_singleton] at connects
      have isFirst : Branch.mk condition body ∈ Branch.mk condition body :: branches :=
        List.mem_cons_self
      obtain ⟨_, _, testComplete, testCanonical, testCovers⟩ :=
        exists_lighter_expression test (connects.part (.condition isFirst otherwise))
      obtain ⟨_, _, bodyComplete, bodyCanonical, bodyCovers⟩ :=
        guarded (List.forall_mem_singleton.mpr (connects.part (.guarded isFirst otherwise)))
      obtain ⟨_, _, restComplete, restCanonical, restCovers⟩ := rest (everywhere_elseIfs connects)
      obtain ⟨_, _, lastComplete, lastCanonical, lastCovers⟩ :=
        last (List.forall_mem_singleton.mpr (connects.part (.otherwise _ otherwise)))
      have canonical := completes_choose allowed testCanonical rfl chain.canonical bodyCanonical
        restCanonical lastCanonical
      refine ⟨_, _, completes_choose allowed testComplete (head?_block block) chain bodyComplete
        restComplete lastComplete, ?_, (testCovers.and bodyCovers).and (restCovers.and lastCovers)⟩
      simpa [CompletesCanonically, Statement.tokens, Statement.branchTokens] using canonical
  | @loop _ _ _ _ initial step condition body allowed _ _ _ block first test last repeated =>
      rw [nodes, List.forall_mem_singleton] at connects
      have turns := connects.part (.turns initial condition step body)
      obtain ⟨_, _, firstComplete, firstCanonical, firstCovers⟩ := first
        (List.forall_mem_singleton.mpr (connects.part (.initial initial condition step body)))
      obtain ⟨_, _, testComplete, testCanonical, testCovers⟩ :=
        test (everywhere_headerCondition turns)
      obtain ⟨_, _, lastComplete, lastCanonical, lastCovers⟩ :=
        last (List.forall_mem_singleton.mpr (turns.part (.turnStep condition step body)))
      obtain ⟨_, _, bodyComplete, bodyCanonical, bodyCovers⟩ :=
        repeated (List.forall_mem_singleton.mpr (turns.part (.turnBody condition step body)))
      exact ⟨_, _, completes_loop allowed (head?_block block) firstComplete testComplete
          lastComplete bodyComplete,
        completes_loop allowed rfl firstCanonical testCanonical lastCanonical bodyCanonical,
        firstCovers.and (testCovers.and (lastCovers.and bodyCovers))⟩
  | declare name parameters allowed _ called =>
      rw [nodes, List.forall_mem_singleton] at connects
      obtain ⟨_, _, complete, canonical, covers⟩ :=
        called (List.forall_mem_singleton.mpr (connects.part (.declared _ _ _)))
      exact ⟨_, _, completes_declare name parameters allowed complete,
        completes_declare name parameters allowed canonical, covers⟩
  | giveBack allowed returned =>
      rw [nodes, List.forall_mem_singleton] at connects
      obtain ⟨_, _, complete, canonical, covers⟩ :=
        exists_lighter_expression returned (connects.part (.returned _))
      exact ⟨_, _, completes_giveBack allowed complete, completes_giveBack allowed canonical, covers⟩
  | ofBare _ ends bare =>
      obtain ⟨_, _, complete, canonical, covers⟩ := bare connects
      exact ⟨_, _, completes_ofBare complete ends, canonical, covers⟩
  | noStatement => exact ⟨_, _, completes_noStatement, completes_noStatement, .refl _⟩
  | @nextStatement _ _ statement block first rest firstLighter restLighter =>
      rw [nodes, List.forall_mem_singleton] at connects
      obtain ⟨_, _, firstComplete, firstCanonical, firstCovers⟩ := firstLighter
        (List.forall_mem_singleton.mpr (connects.part (.statement List.mem_cons_self)))
      obtain ⟨_, _, restComplete, restCanonical, restCovers⟩ :=
        restLighter (List.forall_mem_singleton.mpr (everywhere_tail trivial connects))
      have line : Derives features (statement.tokens ++ [.newline]) (.statement statement) :=
        .ofBare first.canonical (.inr rfl)
      have canonical := completes_nextStatement line rest.canonical
        (completes_ofBare firstCanonical (.inr rfl)) restCanonical
      refine ⟨_, _, completes_nextStatement first rest firstComplete restComplete, ?_,
        firstCovers.and restCovers⟩
      simpa [CompletesCanonically, Statement.linesTokens] using canonical
  | @braces _ _ _ block opens statements ends inner =>
      obtain ⟨_, _, complete, canonical, covers⟩ := inner connects
      have inBraces := completes_braces (.inr rfl) statements.canonical (.inl rfl) canonical
      refine ⟨_, _, completes_braces opens statements ends complete, ?_, covers.inside⟩
      simpa [CompletesCanonically, inBraceTokens] using inBraces

end StatementForm

/-- The canonical text of an accepted program without negations right under `and` and
`or` is accepted as that program. -/
theorem parse_toSource {features : FeatureSet} {source : String} {body : Block}
    (accepted : parse features source = .ok body)
    (connects : (Node.block body).Everywhere Node.ConnectsNoNegation) :
    parse features body.toSource = .ok body := by
  obtain ⟨⟨opening, tokens, opens, derived, kinds⟩, _⟩ := derivedFrom_of_parse accepted
  obtain ⟨demand, lighter, complete, canonical, covers⟩ :=
    derived.exists_lighter (List.forall_mem_singleton.mpr connects)
  have fits := fits_of_parse opens derived complete kinds accepted
  exact parse_of_fits (.inl rfl) derived.canonical canonical (scanAll_toSource_kinds accepted)
    (covers fits)

/-- Canonical text needs no more nesting than the text it comes from.  Where no
negation by `not` is an operand of an `and` or an `or`, compiling the canonical text
of a compiled program succeeds and gives the program back. -/
theorem compile_render_of_connectsNoNegation {features : FeatureSet} {source : String}
    {program : Program} (compiled : Program.compile features source = .ok program)
    (connects : ∀ operator left right, operator = .and ∨ operator = .or →
      (Node.expr (.binary operator left right)).Within (.block program.body) →
      left.isNot = false ∧ right.isNot = false) :
    Program.compile features program.render = .ok program := by
  have everywhere : (Node.block program.body).Everywhere Node.ConnectsNoNegation := by
    intro node within
    unfold Node.ConnectsNoNegation
    split
    · next operator left right => exact fun connecting => connects _ _ _ connecting within
    · trivial
  have accepted := Program.parse_of_compile compiled
  rw [← compiled, Program.compile, Program.compile, Program.render,
    parse_toSource accepted everywhere, accepted]

/-- The canonical text keeps one of five pairs of parentheses: that of the operand of
the negation, which binds tighter than the operator in it. -/
theorem compile_render_negated_connective :
    Program.compile FeatureSet.none "x=((not((a)and(b))))" =
      .ok ⟨FeatureSet.none, [.assign "x" (.unary .not (.binary .and (.name "a") (.name "b")))]⟩ ∧
    Program.compile FeatureSet.none "x = not (a and b)\n" =
      .ok ⟨FeatureSet.none,
        [.assign "x" (.unary .not (.binary .and (.name "a") (.name "b")))]⟩ := by
  have compiled : Program.compile FeatureSet.none "x=((not((a)and(b))))" =
      .ok ⟨FeatureSet.none,
        [.assign "x" (.unary .not (.binary .and (.name "a") (.name "b")))]⟩ := by
    decide +kernel
  have name (identifier : String) :
      (Node.expr (.name identifier)).Everywhere Node.ConnectsNoNegation :=
    .of_parts trivial fun _ isPart => by cases isPart
  have connective : (Node.expr (.binary .and (.name "a") (.name "b"))).Everywhere
      Node.ConnectsNoNegation :=
    .of_parts (fun _ => ⟨rfl, rfl⟩) fun _ isPart => by cases isPart <;> exact name _
  have negation : (Node.expr (.unary .not (.binary .and (.name "a") (.name "b")))).Everywhere
      Node.ConnectsNoNegation :=
    .of_parts trivial fun _ isPart => by cases isPart; exact connective
  have assignment : (Node.statement (.assign "x" (.unary .not
      (.binary .and (.name "a") (.name "b"))))).Everywhere Node.ConnectsNoNegation :=
    .of_parts trivial fun _ isPart => by cases isPart; exact negation
  have whole : (Node.block [.assign "x" (.unary .not
      (.binary .and (.name "a") (.name "b")))]).Everywhere Node.ConnectsNoNegation := by
    refine .of_parts trivial fun part isPart => ?_
    cases isPart with
    | statement member =>
        rw [List.mem_singleton.mp member]
        exact assignment
  have rendered : Program.render ⟨FeatureSet.none,
      [.assign "x" (.unary .not (.binary .and (.name "a") (.name "b")))]⟩ =
        "x = not (a and b)\n" := by
    decide +kernel
  have again := compile_render_of_connectsNoNegation compiled
    fun _ _ _ connecting within => whole _ within connecting
  rw [rendered] at again
  exact ⟨compiled, again⟩

end Scriptlet
