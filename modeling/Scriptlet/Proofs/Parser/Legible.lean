import Scriptlet.Proofs.Parser.Shape

/-!
Contract: well-formed expressions are derived by tokens that a text can hold.

Owns:
- the tokens that put together an expression from those of its parts, operands in
  parentheses;
- that every well-formed expression has some.

Together with the condition on derived trees this says that an expression is well formed
exactly when some text can stand for it, nesting aside.
-/

namespace Scriptlet

variable {features : FeatureSet}

namespace ExprForm

/-- Whether some readable tokens derive a form. -/
def Legible (features : FeatureSet) (form : ExprForm) : Prop :=
  ∃ tokens, Derives features tokens form ∧ ∀ kind ∈ tokens, kind.Readable features

theorem Legible.ofPlace {expr : Expr} (legible : (place expr).Legible features) :
    (operand expr).Legible features := by
  obtain ⟨tokens, derived, readable⟩ := legible
  exact ⟨tokens, .ofPlace derived, readable⟩

theorem Legible.atLevel {expr : Expr} (legible : (operand expr).Legible features) {level : Nat}
    (positive : 1 ≤ level) (below : level ≤ operandLevel) :
    (expression level expr).Legible features := by
  obtain ⟨tokens, derived, readable⟩ := legible
  exact ⟨tokens, derived.ofOperandAt positive below, readable⟩

theorem Legible.parenthesized {expr : Expr} (legible : (expression 1 expr).Legible features) :
    (operand expr).Legible features := by
  obtain ⟨tokens, derived, readable⟩ := legible
  refine ⟨_, .parentheses derived, ?_⟩
  simp only [List.forall_mem_append, List.forall_mem_cons]
  exact ⟨rfl, readable, rfl, nofun⟩

theorem Legible.unary {expr : Expr} (legible : (operand expr).Legible features)
    (operator : UnaryOperator) : (operand (.unary operator expr)).Legible features := by
  obtain ⟨tokens, derived, readable⟩ := legible
  cases operator with
  | not =>
      have negation := Derives.negation (derived.ofOperandAt (by decide) (by decide))
      refine Legible.parenthesized
        ⟨_, negation.loosen (Nat.le_refl 1) (by decide), List.forall_mem_cons.mpr ⟨rfl, readable⟩⟩
  | negate | plus =>
      exact ⟨_, .sign (by decide) derived, List.forall_mem_cons.mpr ⟨rfl, readable⟩⟩

theorem Legible.binary {left right : Expr} (legibleLeft : (operand left).Legible features)
    (legibleRight : (operand right).Legible features) (operator : BinaryOperator) :
    (operand (.binary operator left right)).Legible features := by
  have below := operator.level_lt_operandLevel
  obtain ⟨leftTokens, first, readableLeft⟩ :=
    legibleLeft.atLevel operator.one_le_level (Nat.le_of_lt below)
  obtain ⟨rightTokens, second, readableRight⟩ :=
    legibleRight.atLevel (Nat.le_add_left 1 operator.level) below
  have derived := (Derives.binary operator first second).loosen (Nat.le_refl 1)
    operator.one_le_level
  refine Legible.parenthesized ⟨_, derived, ?_⟩
  simp only [List.forall_mem_append, List.forall_mem_cons]
  refine ⟨readableLeft, ?_, readableRight⟩
  cases operator <;> rfl

theorem Legible.items {exprs : List Expr} (nonempty : exprs ≠ [])
    (legible : ∀ expr ∈ exprs, (operand expr).Legible features) :
    (items exprs).Legible features := by
  induction exprs with
  | nil => contradiction
  | cons expr rest inductionHypothesis =>
      rw [List.forall_mem_cons] at legible
      obtain ⟨tokens, first, readable⟩ := legible.1.atLevel (Nat.le_refl 1) (by decide)
      cases rest with
      | nil => exact ⟨tokens, .one first, readable⟩
      | cons next rest =>
          obtain ⟨restTokens, later, readableRest⟩ :=
            inductionHypothesis (List.cons_ne_nil _ _) legible.2
          refine ⟨_, .more first later, ?_⟩
          simp only [List.forall_mem_append, List.forall_mem_cons]
          exact ⟨readable, rfl, readableRest⟩

theorem Legible.list {exprs : List Expr}
    (legible : ∀ expr ∈ exprs, (operand expr).Legible features) :
    (list exprs).Legible features := by
  cases exprs with
  | nil => exact ⟨[], .empty, nofun⟩
  | cons expr rest =>
      obtain ⟨tokens, found, readable⟩ := Legible.items (List.cons_ne_nil expr rest) legible
      exact ⟨tokens, .nonempty found, readable⟩

theorem legible_integer {value : Int64} (nonneg : 0 ≤ value.toInt) :
    (operand (.integer value)).Legible features := by
  have small : value.toInt.toNat < literalBound := by
    have below := value.toInt_lt
    simp only [literalBound]
    omega
  have isNat : value = Int64.ofNat value.toInt.toNat := by
    rw [← Int64.toInt_inj, Int64.toInt_ofNat_of_lt small, Int.toNat_of_nonneg nonneg]
  exact ⟨_, .integer value, List.forall_mem_singleton.mpr ⟨_, small, isNat⟩⟩

theorem Legible.array {exprs : List Expr} (allowed : Feature.array ∈ features)
    (legible : ∀ expr ∈ exprs, (operand expr).Legible features) :
    (operand (.array exprs)).Legible features := by
  obtain ⟨tokens, inner, readable⟩ := Legible.list legible
  refine ⟨_, .array allowed inner, ?_⟩
  simp only [List.forall_mem_append, List.forall_mem_cons]
  exact ⟨allowed, readable, allowed, nofun⟩

theorem Legible.index {base offset : Expr} (allowed : Feature.array ∈ features)
    (legibleBase : (place base).Legible features)
    (legibleOffset : (operand offset).Legible features) :
    (place (.index base offset)).Legible features := by
  obtain ⟨baseTokens, first, readableBase⟩ := legibleBase
  obtain ⟨offsetTokens, second, readableOffset⟩ :=
    legibleOffset.atLevel (Nat.le_refl 1) (by decide)
  refine ⟨_, .index allowed first second, ?_⟩
  simp only [List.forall_mem_append, List.forall_mem_cons]
  exact ⟨readableBase, allowed, readableOffset, allowed, nofun⟩

theorem Legible.call {name : String} {exprs : List Expr} (allowed : Feature.function ∈ features)
    (named : (TokenKind.identifier name).Readable features)
    (legible : ∀ expr ∈ exprs, (operand expr).Legible features) :
    (place (.call name exprs)).Legible features := by
  obtain ⟨tokens, inner, readable⟩ := Legible.list legible
  refine ⟨_, .call name allowed inner, ?_⟩
  simp only [List.forall_mem_append, List.forall_mem_cons]
  exact ⟨named, rfl, readable, rfl, nofun⟩

end ExprForm

mutual

/-- A well-formed expression is derived by readable tokens, as a place if it can be
indexed. -/
theorem Expr.legible_of_wellFormed : (expr : Expr) →
    (Node.expr expr).Everywhere (Node.WellFormed features) →
    (ExprForm.operand expr).Legible features ∧
      (expr.isPlace = true → (ExprForm.place expr).Legible features)
  | .integer _, everywhere => ⟨ExprForm.legible_integer (everywhere _ .refl).shaped, nofun⟩
  | .name identifier, everywhere => by
      have named := (everywhere _ .refl).named identifier rfl
      have legible : (ExprForm.place (.name identifier)).Legible features :=
        ⟨_, .name identifier, List.forall_mem_singleton.mpr named⟩
      exact ⟨legible.ofPlace, fun _ => legible⟩
  | .array items, everywhere => by
      have allowed := (everywhere _ .refl).allowed .array List.mem_cons_self
      have legible := Expr.all_legible_of_wellFormed items fun _ member =>
        everywhere.part (.item member)
      exact ⟨.array allowed legible, nofun⟩
  | .unary operator operand, everywhere => by
      have legible := operand.legible_of_wellFormed (everywhere.part (.operand _ _))
      exact ⟨legible.1.unary operator, nofun⟩
  | .binary operator left right, everywhere => by
      have legibleLeft := left.legible_of_wellFormed (everywhere.part (.left _ _ _))
      have legibleRight := right.legible_of_wellFormed (everywhere.part (.right _ _ _))
      exact ⟨legibleLeft.1.binary legibleRight.1 operator, nofun⟩
  | .index base offset, everywhere => by
      have wellFormed := everywhere _ .refl
      have allowed := wellFormed.allowed .array List.mem_cons_self
      have legibleBase := base.legible_of_wellFormed (everywhere.part (.base _ _))
      have legibleOffset := offset.legible_of_wellFormed (everywhere.part (.offset _ _))
      have legible := (legibleBase.2 wellFormed.shaped).index allowed legibleOffset.1
      exact ⟨legible.ofPlace, fun _ => legible⟩
  | .call function arguments, everywhere => by
      have wellFormed := everywhere _ .refl
      have allowed := wellFormed.allowed .function List.mem_cons_self
      have legibleArguments := Expr.all_legible_of_wellFormed arguments fun _ member =>
        everywhere.part (.argument function member)
      have legible := ExprForm.Legible.call allowed (wellFormed.named function rfl) legibleArguments
      exact ⟨legible.ofPlace, fun _ => legible⟩

theorem Expr.all_legible_of_wellFormed : (exprs : List Expr) →
    (∀ expr ∈ exprs, (Node.expr expr).Everywhere (Node.WellFormed features)) →
    ∀ expr ∈ exprs, (ExprForm.operand expr).Legible features
  | [], _ => nofun
  | first :: rest, everywhere => by
      rw [List.forall_mem_cons] at everywhere ⊢
      exact ⟨(first.legible_of_wellFormed everywhere.1).1,
        Expr.all_legible_of_wellFormed rest everywhere.2⟩

end

end Scriptlet
