import Scriptlet.Parse.Expr

/-!
Contract: the grammar of expressions, one nonterminal for each binding level.

Owns:
- the tokens that operators are written as;
- the stratified, left-recursive productions of expressions, operands, places
  and comma lists;
- what every derivation starts with.

Levels run from 1, where `or` and `and` stand, to `operandLevel`, which is above
every operator.  An expression of a level is one of the next level, or a binary
operator of that level with an operand of the level on its left and one of the
next level on its right; level 2 is that of `not`, which stands in front of an
operand of its own level.

Does not own: how tokens are parsed.
-/

namespace Scriptlet

namespace BinaryOperator

/-- The token that an operator is written as. -/
def token : BinaryOperator → TokenKind
  | .or => .keyword .or
  | .and => .keyword .and
  | .is => .keyword .is
  | .isNot => .keyword .isNot
  | .less => .symbol .less
  | .lessEqual => .symbol .lessEqual
  | .greater => .symbol .greater
  | .greaterEqual => .symbol .greaterEqual
  | .add => .symbol .plus
  | .subtract => .symbol .minus
  | .multiply => .symbol .star
  | .divide => .symbol .slash
  | .modulo => .symbol .percent

@[simp] theorem ofToken?_token (operator : BinaryOperator) :
    ofToken? operator.token = some operator := by
  cases operator <;> rfl

/-- A token that is a binary operator is the one that the operator is written
as. -/
theorem eq_token_of_ofToken? {kind : TokenKind} {operator : BinaryOperator}
    (found : ofToken? kind = some operator) : kind = operator.token := by
  unfold ofToken? at found
  split at found <;> cases found <;> rfl

theorem token_ne_identifier (operator : BinaryOperator) (name : String) :
    operator.token ≠ .identifier name := by
  cases operator <;> exact nofun

end BinaryOperator

namespace UnaryOperator

/-- The token that an operator is written as. -/
def token : UnaryOperator → TokenKind
  | .not => .keyword .not
  | .negate => .symbol .minus
  | .plus => .symbol .plus

theorem ofSign?_token {operator : UnaryOperator} (sign : operator ≠ .not) :
    ofSign? operator.token = some operator := by
  cases operator with
  | not => contradiction
  | negate => rfl
  | plus => rfl

theorem eq_token_of_ofSign? {kind : TokenKind} {operator : UnaryOperator}
    (found : ofSign? kind = some operator) : kind = operator.token ∧ operator ≠ .not := by
  unfold ofSign? at found
  split at found <;> cases found <;> exact ⟨rfl, by decide⟩

theorem token_ne_identifier (operator : UnaryOperator) (name : String) :
    operator.token ≠ .identifier name := by
  cases operator <;> exact nofun

end UnaryOperator

/-- The level above every operator. -/
def operandLevel : Nat := 6

theorem BinaryOperator.one_le_level (operator : BinaryOperator) : 1 ≤ operator.level := by
  cases operator <;> decide

theorem BinaryOperator.level_lt_operandLevel (operator : BinaryOperator) :
    operator.level < operandLevel := by
  cases operator <;> decide

/-- A nonterminal of the grammar of expressions, with the tree it stands for. -/
inductive ExprForm where
  /-- An expression of a level. -/
  | expression (level : Nat) (expr : Expr)
  /-- An operand of binary operators. -/
  | operand (expr : Expr)
  /-- A name with its call and indexes. -/
  | place (expr : Expr)
  /-- Expressions with commas between them, possibly none. -/
  | list (exprs : List Expr)
  /-- One or more expressions with commas between them. -/
  | items (exprs : List Expr)

namespace ExprForm

/-- The token sequences that derive a tree under a feature set. -/
inductive Derives (features : FeatureSet) : List TokenKind → ExprForm → Prop where
  | ofOperand {tokens : List TokenKind} {expr : Expr}
      (operand : Derives features tokens (.operand expr)) :
      Derives features tokens (.expression operandLevel expr)
  | ofTighter {tokens : List TokenKind} {level : Nat} {expr : Expr} (positive : 1 ≤ level)
      (tighter : Derives features tokens (.expression (level + 1) expr)) :
      Derives features tokens (.expression level expr)
  | binary {leftTokens rightTokens : List TokenKind} {left right : Expr}
      (operator : BinaryOperator)
      (first : Derives features leftTokens (.expression operator.level left))
      (second : Derives features rightTokens (.expression (operator.level + 1) right)) :
      Derives features (leftTokens ++ operator.token :: rightTokens)
        (.expression operator.level (.binary operator left right))
  | negation {tokens : List TokenKind} {expr : Expr}
      (negated : Derives features tokens (.expression notLevel expr)) :
      Derives features (.keyword .not :: tokens) (.expression notLevel (.unary .not expr))
  | sign {tokens : List TokenKind} {expr : Expr} {operator : UnaryOperator}
      (isSign : operator ≠ .not) (under : Derives features tokens (.operand expr)) :
      Derives features (operator.token :: tokens) (.operand (.unary operator expr))
  | integer (value : Int64) : Derives features [.integer value] (.operand (.integer value))
  | ofPlace {tokens : List TokenKind} {expr : Expr}
      (place : Derives features tokens (.place expr)) :
      Derives features tokens (.operand expr)
  | parentheses {tokens : List TokenKind} {expr : Expr}
      (inner : Derives features tokens (.expression 1 expr)) :
      Derives features (.symbol .leftParen :: (tokens ++ [.symbol .rightParen])) (.operand expr)
  | array {tokens : List TokenKind} {exprs : List Expr} (allowed : Feature.array ∈ features)
      (inner : Derives features tokens (.list exprs)) :
      Derives features (.symbol .leftBracket :: (tokens ++ [.symbol .rightBracket]))
        (.operand (.array exprs))
  | name (name : String) : Derives features [.identifier name] (.place (.name name))
  | call {tokens : List TokenKind} {arguments : List Expr} (name : String)
      (allowed : Feature.function ∈ features)
      (inner : Derives features tokens (.list arguments)) :
      Derives features
        (.identifier name :: .symbol .leftParen :: (tokens ++ [.symbol .rightParen]))
        (.place (.call name arguments))
  | index {baseTokens offsetTokens : List TokenKind} {base offset : Expr}
      (allowed : Feature.array ∈ features)
      (first : Derives features baseTokens (.place base))
      (second : Derives features offsetTokens (.expression 1 offset)) :
      Derives features
        (baseTokens ++ .symbol .leftBracket :: (offsetTokens ++ [.symbol .rightBracket]))
        (.place (.index base offset))
  | empty : Derives features [] (.list [])
  | nonempty {tokens : List TokenKind} {exprs : List Expr}
      (found : Derives features tokens (.items exprs)) :
      Derives features tokens (.list exprs)
  | one {tokens : List TokenKind} {expr : Expr}
      (first : Derives features tokens (.expression 1 expr)) :
      Derives features tokens (.items [expr])
  | more {firstTokens restTokens : List TokenKind} {expr : Expr} {exprs : List Expr}
      (first : Derives features firstTokens (.expression 1 expr))
      (rest : Derives features restTokens (.items exprs)) :
      Derives features (firstTokens ++ .symbol .comma :: restTokens) (.items (expr :: exprs))

variable {features : FeatureSet}

/-- An expression of a level is one of every looser level. -/
theorem Derives.loosen {tokens : List TokenKind} {level looser : Nat} {expr : Expr}
    (derived : Derives features tokens (.expression level expr)) (positive : 1 ≤ looser)
    (below : looser ≤ level) : Derives features tokens (.expression looser expr) := by
  induction below with
  | refl => exact derived
  | step below inductionHypothesis =>
      exact inductionHypothesis (.ofTighter (Nat.le_trans positive below) derived)

/-- An operand is an expression of every level. -/
theorem Derives.ofOperandAt {tokens : List TokenKind} {level : Nat} {expr : Expr}
    (derived : Derives features tokens (.operand expr)) (positive : 1 ≤ level)
    (below : level ≤ operandLevel) : Derives features tokens (.expression level expr) :=
  Derives.loosen (.ofOperand derived) positive below

/-! ## First tokens -/

/-- Whether an operand can start with a token. -/
def startsOperand : TokenKind → Bool
  | .identifier _ | .integer _ => true
  | .symbol .plus | .symbol .minus | .symbol .leftParen | .symbol .leftBracket => true
  | _ => false

/-- Whether a token sequence starts in a way that a form can start.  A list can
be empty, so it says nothing. -/
def StartsAs (tokens : List TokenKind) : ExprForm → Prop
  | .expression level _ =>
      ∃ first, tokens.head? = some first ∧
        (startsOperand first = true ∨ first = .keyword .not ∧ level ≤ notLevel)
  | .operand _ => ∃ first, tokens.head? = some first ∧ startsOperand first = true
  | .place _ => ∃ name, tokens.head? = some (.identifier name)
  | .list _ => True
  | .items _ =>
      ∃ first, tokens.head? = some first ∧
        (startsOperand first = true ∨ first = .keyword .not)

theorem head?_append_of_head? {first : TokenKind} {tokens : List TokenKind}
    (head : tokens.head? = some first) (more : List TokenKind) :
    (tokens ++ more).head? = some first := by
  rw [List.head?_append, head]
  rfl

theorem Derives.startsAs {tokens : List TokenKind} {form : ExprForm}
    (derived : Derives features tokens form) : form.StartsAs tokens := by
  induction derived with
  | ofOperand _ operand =>
      obtain ⟨first, head, starts⟩ := operand
      exact ⟨first, head, .inl starts⟩
  | ofTighter _ _ tighter =>
      obtain ⟨first, head, starts | ⟨isNot, below⟩⟩ := tighter
      · exact ⟨first, head, .inl starts⟩
      · exact ⟨first, head, .inr ⟨isNot, by omega⟩⟩
  | binary operator _ _ left _ =>
      obtain ⟨first, head, starts⟩ := left
      exact ⟨first, head?_append_of_head? head _, starts⟩
  | negation _ _ => exact ⟨_, rfl, .inr ⟨rfl, Nat.le_refl _⟩⟩
  | @sign _ _ operator isSign _ _ =>
      refine ⟨_, rfl, ?_⟩
      cases operator with
      | not => contradiction
      | negate => rfl
      | plus => rfl
  | integer value => exact ⟨_, rfl, rfl⟩
  | ofPlace _ place =>
      obtain ⟨name, head⟩ := place
      exact ⟨_, head, rfl⟩
  | parentheses _ _ => exact ⟨_, rfl, rfl⟩
  | array _ _ _ => exact ⟨_, rfl, rfl⟩
  | name name => exact ⟨name, rfl⟩
  | call name _ _ _ => exact ⟨name, rfl⟩
  | index _ _ _ base _ =>
      obtain ⟨name, head⟩ := base
      exact ⟨name, head?_append_of_head? head _⟩
  | empty => trivial
  | nonempty _ _ => trivial
  | one _ first =>
      obtain ⟨first, head, starts | ⟨isNot, _⟩⟩ := first
      · exact ⟨first, head, .inl starts⟩
      · exact ⟨first, head, .inr isNot⟩
  | more _ _ first _ =>
      obtain ⟨first, head, starts | ⟨isNot, _⟩⟩ := first
      · exact ⟨first, head?_append_of_head? head _, .inl starts⟩
      · exact ⟨first, head?_append_of_head? head _, .inr isNot⟩

/-- An expression that starts with an identifier starts with a place, and what
follows the place is nothing or a binary operator. -/
theorem Derives.exists_place_of_head {tokens : List TokenKind} {level : Nat} {expr : Expr}
    {name : String} (derived : Derives features tokens (.expression level expr))
    (head : tokens.head? = some (.identifier name)) :
    ∃ placeTokens place rest, tokens = placeTokens ++ rest ∧
      Derives features placeTokens (.place place) ∧
      ∀ kind, rest.head? = some kind → ∃ operator : BinaryOperator, kind = operator.token := by
  generalize shape : ExprForm.expression level expr = form at derived
  induction derived generalizing level expr with
  | ofOperand operand _ =>
      cases operand with
      | @sign _ _ operator => cases operator <;> simp [UnaryOperator.token] at head
      | integer | parentheses | array => simp at head
      | ofPlace place => exact ⟨_, _, [], (List.append_nil _).symm, place, by simp⟩
  | ofTighter _ _ inductionHypothesis => exact inductionHypothesis head rfl
  | @binary leftTokens rightTokens left right operator first _ inductionHypothesis _ =>
      obtain ⟨leading, leadingHead, _⟩ := first.startsAs
      have sameHead := head?_append_of_head? leadingHead (operator.token :: rightTokens)
      rw [sameHead] at head
      obtain ⟨placeTokens, place, rest, rfl, placeDerived, follows⟩ :=
        inductionHypothesis (leadingHead.trans head) rfl
      refine ⟨placeTokens, place, rest ++ operator.token :: rightTokens,
        List.append_assoc .., placeDerived, ?_⟩
      intro kind kindHead
      cases rest with
      | nil =>
          simp only [List.nil_append, List.head?_cons, Option.some.injEq] at kindHead
          exact ⟨operator, kindHead.symm⟩
      | cons next rest => exact follows kind kindHead
  | negation => simp at head
  | _ => cases shape

end ExprForm

end Scriptlet
