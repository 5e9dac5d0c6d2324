import Scriptlet.Proofs.Canonical.Tokens

/-!
Contract: what parentheses decide in tokens that derive an expression.

Owns:
- tokens with all parentheses in pairs, and that derivations give no others;
- tokens without their parentheses, which are the same for all tokens that derive a tree;
- the last step of a derivation: parentheses around the whole, or the tokens of the tree's
  root around tokens that derive its parts;
- tokens that miss a form: parentheses aside they are its own but grouped otherwise, or
  there are too few of them.  Every context keeps tokens that miss a part.

Tokens that derive a tree hold those of each part in one place, which the number of tokens
in front of it tells, parentheses not counted.  So no other grouping can make up for a part
that is missed.  The parentheses of calls are no groups, but they stand in
pairs like the others, and a tree has the same ones in all its derivations.
-/

namespace Scriptlet

/-! ## Pairs of parentheses -/

/-- What a token adds to the number of open parentheses. -/
def TokenKind.weight : TokenKind → Int
  | .symbol .leftParen => 1
  | .symbol .rightParen => -1
  | _ => 0

/-- How many more parentheses are opened than closed. -/
def excess : List TokenKind → Int
  | [] => 0
  | kind :: rest => kind.weight + excess rest

@[simp] theorem excess_nil : excess [] = 0 := rfl

@[simp] theorem excess_cons (kind : TokenKind) (rest : List TokenKind) :
    excess (kind :: rest) = kind.weight + excess rest := rfl

@[simp] theorem excess_append (front back : List TokenKind) :
    excess (front ++ back) = excess front + excess back := by
  induction front with
  | nil => simp
  | cons kind front inductionHypothesis => simp [inductionHypothesis, Int.add_assoc]

/-- Whether every parenthesis of some tokens has its partner among them. -/
structure Paired (tokens : List TokenKind) : Prop where
  whole : excess tokens = 0
  nonneg : ∀ {front back : List TokenKind}, tokens = front ++ back → 0 ≤ excess front

theorem paired_nil : Paired [] := by
  refine ⟨rfl, fun isNil => ?_⟩
  rw [(List.nil_eq_append_iff.mp isNil).1]
  exact Int.le_refl 0

theorem Paired.append {first second : List TokenKind} (firstPaired : Paired first)
    (secondPaired : Paired second) : Paired (first ++ second) := by
  refine ⟨by rw [excess_append, firstPaired.whole, secondPaired.whole, Int.add_zero], ?_⟩
  intro front back isFront
  rcases List.append_eq_append_iff.mp isFront with ⟨more, rfl, isSecond⟩ | ⟨more, isFirst, _⟩
  · rw [excess_append, firstPaired.whole, Int.zero_add]
    exact secondPaired.nonneg isSecond
  · exact firstPaired.nonneg isFirst

theorem Paired.cons {kind : TokenKind} {tokens : List TokenKind} (paired : Paired tokens)
    (light : kind.weight = 0) : Paired (kind :: tokens) := by
  refine ⟨by rw [excess_cons, light, paired.whole, Int.add_zero], ?_⟩
  intro front back isFront
  cases front with
  | nil => exact Int.le_refl 0
  | cons first front =>
      obtain ⟨rfl, isRest⟩ := List.cons.inj isFront
      rw [excess_cons, light, Int.zero_add]
      exact paired.nonneg isRest

theorem Paired.parentheses {tokens : List TokenKind} (paired : Paired tokens) :
    Paired (.symbol .leftParen :: (tokens ++ [.symbol .rightParen])) := by
  refine ⟨by simp [paired.whole, TokenKind.weight], ?_⟩
  intro front back isFront
  cases front with
  | nil => exact Int.le_refl 0
  | cons first front =>
      obtain ⟨rfl, isRest⟩ := List.cons.inj isFront
      rcases List.append_eq_append_iff.mp isRest with ⟨more, rfl, isClosing⟩ | ⟨more, rfl, _⟩
      · have nonneg : -1 ≤ excess more := by
          rcases List.singleton_eq_append_iff.mp isClosing with ⟨rfl, _⟩ | ⟨rfl, _⟩
          · decide
          · decide
        simp only [excess_cons, excess_append, paired.whole, TokenKind.weight]
        omega
      · have nonneg := paired.nonneg rfl
        simp only [excess_cons, TokenKind.weight]
        omega

/-- Tokens in pairs can stand in the place of others. -/
theorem Paired.replace {before inner other after : List TokenKind}
    (paired : Paired (before ++ (inner ++ after))) (innerPaired : Paired inner)
    (otherPaired : Paired other) : Paired (before ++ (other ++ after)) := by
  have whole := paired.whole
  have beforeNonneg : 0 ≤ excess before := paired.nonneg rfl
  simp only [excess_append, innerPaired.whole] at whole
  refine ⟨by simp only [excess_append, otherPaired.whole]; omega, ?_⟩
  intro front back isFront
  rcases List.append_eq_append_iff.mp isFront with ⟨more, rfl, isMore⟩ | ⟨more, isBefore, _⟩
  · rcases List.append_eq_append_iff.mp isMore with ⟨rest, rfl, rfl⟩ | ⟨rest, isOther, _⟩
    · have same : before ++ (inner ++ (rest ++ back)) = (before ++ (inner ++ rest)) ++ back := by
        simp only [List.append_assoc]
      have nonneg := paired.nonneg same
      simp only [excess_append, innerPaired.whole, otherPaired.whole] at nonneg ⊢
      exact nonneg
    · have nonneg := otherPaired.nonneg isOther
      simp only [excess_append]
      omega
  · have same : before ++ (inner ++ after) = front ++ (more ++ (inner ++ after)) := by
      rw [isBefore, List.append_assoc]
    exact paired.nonneg same

@[simp] theorem TokenKind.weight_keyword (word : Keyword) :
    (TokenKind.keyword word).weight = 0 := rfl

@[simp] theorem BinaryOperator.weight_token (operator : BinaryOperator) :
    operator.token.weight = 0 := by
  cases operator <;> rfl

@[simp] theorem UnaryOperator.weight_token (operator : UnaryOperator) :
    operator.token.weight = 0 := by
  cases operator <;> rfl

theorem Paired.parenthesized {tokens : List TokenKind} (paired : Paired tokens)
    (needed : Bool) : Paired (Expr.parenthesizeTokens needed tokens) := by
  cases needed with
  | false => exact paired
  | true => exact paired.parentheses

/-- Tokens with a comma or an operator between them, or a bracket. -/
theorem Paired.join {first second : List TokenKind} {kind : TokenKind}
    (firstPaired : Paired first) (light : kind.weight = 0)
    (secondPaired : Paired second) : Paired (first ++ kind :: second) :=
  firstPaired.append (secondPaired.cons light)

theorem Paired.brackets {tokens : List TokenKind} (paired : Paired tokens) :
    Paired (.symbol .leftBracket :: (tokens ++ [.symbol .rightBracket])) :=
  (paired.join rfl paired_nil).cons rfl

/-! ## Tokens without parentheses -/

/-- The tokens that are no parentheses. -/
def solid (tokens : List TokenKind) : List TokenKind :=
  tokens.filter (·.weight = 0)

@[simp] theorem solid_nil : solid [] = [] := rfl

@[simp] theorem solid_cons (kind : TokenKind) (rest : List TokenKind) :
    solid (kind :: rest) = if kind.weight = 0 then kind :: solid rest else solid rest := by
  simp [solid, List.filter_cons]

@[simp] theorem solid_append (front back : List TokenKind) :
    solid (front ++ back) = solid front ++ solid back :=
  List.filter_append front back

@[simp] theorem solid_parenthesizeTokens (needed : Bool) (tokens : List TokenKind) :
    solid (Expr.parenthesizeTokens needed tokens) = solid tokens := by
  cases needed with
  | false => rfl
  | true => simp [Expr.parenthesizeTokens, TokenKind.weight]

/-- Where tokens are cut at one that is no parenthesis, the number of such tokens in
front of it tells the place. -/
theorem append_cons_inj_of_solid {front otherFront back otherBack : List TokenKind}
    {kind otherKind : TokenKind} (light : kind.weight = 0) (otherLight : otherKind.weight = 0)
    (count : (solid front).length = (solid otherFront).length)
    (same : front ++ kind :: back = otherFront ++ otherKind :: otherBack) :
    front = otherFront ∧ back = otherBack := by
  induction front generalizing otherFront with
  | nil =>
      cases otherFront with
      | nil => exact ⟨rfl, (List.cons.inj same).2⟩
      | cons first rest =>
          obtain ⟨rfl, _⟩ := List.cons.inj same
          simp [light] at count
  | cons first rest inductionHypothesis =>
      cases otherFront with
      | nil =>
          obtain ⟨rfl, _⟩ := List.cons.inj same
          simp [otherLight] at count
      | cons otherFirst otherRest =>
          obtain ⟨rfl, sameRest⟩ := List.cons.inj same
          have countRest : (solid rest).length = (solid otherRest).length := by
            by_cases isLight : first.weight = 0
            · simpa [isLight] using count
            · simpa [isLight] using count
          obtain ⟨rfl, rfl⟩ := inductionHypothesis countRest sameRest
          exact ⟨rfl, rfl⟩

/-! ## Canonical and derived tokens -/

namespace Expr

theorem listTokens_cons {exprs : List Expr} (nonempty : exprs ≠ []) (expr : Expr) :
    listTokens (expr :: exprs) = expr.tokens ++ .symbol .comma :: listTokens exprs := by
  obtain ⟨next, rest, rfl⟩ := List.exists_cons_of_ne_nil nonempty
  rfl

theorem tokens_unary (operator : UnaryOperator) (operand : Expr) :
    ∃ needed, (Expr.unary operator operand).tokens =
      operator.token :: parenthesizeTokens needed operand.tokens := by
  cases operator <;> exact ⟨_, rfl⟩

mutual

theorem paired_tokens : (expr : Expr) → Paired expr.tokens
  | .integer _ => paired_nil.cons rfl
  | .name _ => paired_nil.cons rfl
  | .array items => (paired_listTokens items).brackets
  | .unary .not operand => (operand.paired_tokens.parenthesized _).cons rfl
  | .unary .negate operand => (operand.paired_tokens.parenthesized _).cons rfl
  | .unary .plus operand => (operand.paired_tokens.parenthesized _).cons rfl
  | .binary operator left right =>
      (left.paired_tokens.parenthesized _).join operator.weight_token
        (right.paired_tokens.parenthesized _)
  | .index base offset => base.paired_tokens.append offset.paired_tokens.brackets
  | .call _ arguments => (paired_listTokens arguments).parentheses.cons rfl

theorem paired_listTokens : (exprs : List Expr) → Paired (listTokens exprs)
  | [] => paired_nil
  | [expr] => expr.paired_tokens
  | expr :: next :: rest => expr.paired_tokens.join rfl (paired_listTokens (next :: rest))

end

end Expr

namespace ExprForm

variable {features : FeatureSet}

/-- Canonical tokens of a form. -/
def tokens : ExprForm → List TokenKind
  | .expression _ expr | .operand expr | .place expr => expr.tokens
  | .list exprs | .items exprs => Expr.listTokens exprs

theorem paired_tokens (form : ExprForm) : Paired form.tokens := by
  cases form with
  | expression _ expr | operand expr | place expr => exact expr.paired_tokens
  | list exprs | items exprs => exact Expr.paired_listTokens exprs

theorem Derives.paired {tokens : List TokenKind} {form : ExprForm}
    (derived : Derives features tokens form) : Paired tokens := by
  induction derived with
  | ofOperand _ derived | ofTighter _ _ derived | ofPlace _ derived | nonempty _ derived
  | one _ derived => exact derived
  | binary operator _ _ left right => exact left.join operator.weight_token right
  | negation _ negated => exact negated.cons rfl
  | @sign _ _ operator _ _ under => exact under.cons operator.weight_token
  | integer | name => exact paired_nil.cons rfl
  | parentheses _ inner => exact inner.parentheses
  | array _ _ inner => exact inner.brackets
  | call _ _ _ inner => exact inner.parentheses.cons rfl
  | index _ _ _ base offset => exact base.append offset.brackets
  | empty => exact paired_nil
  | more _ _ first rest => exact first.join rfl rest

/-- All tokens that derive a tree are the same without their parentheses. -/
theorem Derives.solid_eq {tokens : List TokenKind} {form : ExprForm}
    (derived : Derives features tokens form) : solid tokens = solid form.tokens := by
  induction derived with
  | ofOperand _ same | ofTighter _ _ same | ofPlace _ same | nonempty _ same
  | one _ same => exact same
  | binary _ _ _ left right => simp [left, right, ExprForm.tokens, Expr.tokens]
  | negation _ negated => simp [negated, ExprForm.tokens, Expr.tokens]
  | @sign _ expr operator _ _ under =>
      obtain ⟨needed, isTokens⟩ := Expr.tokens_unary operator expr
      simp [under, ExprForm.tokens, isTokens]
  | integer | name | empty => rfl
  | parentheses _ inner => simp [inner, ExprForm.tokens, TokenKind.weight]
  | array _ _ inner => simp [inner, ExprForm.tokens, Expr.tokens]
  | call _ _ _ inner => simp [inner, ExprForm.tokens, Expr.tokens]
  | index _ _ _ base offset => simp [base, offset, ExprForm.tokens, Expr.tokens]
  | more _ rest firstSame restSame =>
      simp [firstSame, restSame, ExprForm.tokens, Expr.listTokens_cons rest.exprs_ne_nil]

end ExprForm

/-! ## The last step of a derivation -/

/-- Whether some token that is no parenthesis stands in none of the parentheses. -/
def Exposed (tokens : List TokenKind) : Prop :=
  ∃ front kind back, tokens = front ++ kind :: back ∧ excess front = 0 ∧ kind.weight = 0

theorem exposed_cons {kind : TokenKind} (light : kind.weight = 0) (rest : List TokenKind) :
    Exposed (kind :: rest) :=
  ⟨[], kind, rest, rfl, rfl, light⟩

theorem Paired.exposed {front : List TokenKind} {kind : TokenKind} (paired : Paired front)
    (light : kind.weight = 0) (back : List TokenKind) : Exposed (front ++ kind :: back) :=
  ⟨front, kind, back, rfl, paired.whole, light⟩

/-- No pair of parentheses is around all of exposed tokens. -/
theorem Exposed.ne_parentheses {tokens inner : List TokenKind} (exposed : Exposed tokens)
    (paired : Paired inner) :
    tokens ≠ .symbol .leftParen :: (inner ++ [.symbol .rightParen]) := by
  obtain ⟨front, kind, back, rfl, closed, light⟩ := exposed
  intro same
  cases front with
  | nil =>
      obtain ⟨rfl, _⟩ := List.cons.inj same
      cases light
  | cons first front =>
      obtain ⟨rfl, sameRest⟩ := List.cons.inj same
      -- What is in front of the exposed token closes the first parenthesis too early.
      have early : excess front = -1 := by
        simp only [excess_cons, TokenKind.weight] at closed
        omega
      rcases List.append_eq_append_iff.mp sameRest with ⟨more, isInner, _⟩ | ⟨more, rfl, isClosing⟩
      · have nonneg := paired.nonneg isInner
        omega
      · cases more with
        | nil =>
            obtain ⟨rfl, _⟩ := List.cons.inj isClosing
            cases light
        | cons last more => simp at isClosing

namespace Expr

theorem exposed_tokens (expr : Expr) : Exposed expr.tokens := by
  cases expr with
  | integer | name | array | call => exact exposed_cons rfl _
  | unary operator operand =>
      obtain ⟨needed, isTokens⟩ := tokens_unary operator operand
      rw [isTokens]
      exact exposed_cons operator.weight_token _
  | binary operator left =>
      exact (left.paired_tokens.parenthesized _).exposed operator.weight_token _
  | index base => exact base.paired_tokens.exposed rfl _

variable {features : FeatureSet}

/-- Whether tokens are those of the root of an expression, around tokens that derive its
parts. -/
def Assembles (features : FeatureSet) (tokens : List TokenKind) : Expr → Prop
  | .integer value => tokens = [.integer value]
  | .name identifier => tokens = [.identifier identifier]
  | .array items =>
      ∃ inner, tokens = .symbol .leftBracket :: (inner ++ [.symbol .rightBracket]) ∧
        ExprForm.Derives features inner (.list items)
  | .unary operator operand =>
      ∃ inner, tokens = operator.token :: inner ∧
        ExprForm.Derives features inner (.expression operator.level operand)
  | .binary operator left right =>
      ∃ first second, tokens = first ++ operator.token :: second ∧
        ExprForm.Derives features first (.expression operator.level left) ∧
        ExprForm.Derives features second (.expression (operator.level + 1) right)
  | .index base offset =>
      ∃ first second,
        tokens = first ++ .symbol .leftBracket :: (second ++ [.symbol .rightBracket]) ∧
        ExprForm.Derives features first (.place base) ∧
        ExprForm.Derives features second (.expression 1 offset)
  | .call function arguments =>
      ∃ inner,
        tokens = .identifier function :: .symbol .leftParen ::
          (inner ++ [.symbol .rightParen]) ∧
        ExprForm.Derives features inner (.list arguments)

/-- Whether tokens are an expression in parentheses. -/
def Encloses (features : FeatureSet) (tokens : List TokenKind) (expr : Expr) : Prop :=
  ∃ inner, tokens = .symbol .leftParen :: (inner ++ [.symbol .rightParen]) ∧
    ExprForm.Derives features inner (.expression 1 expr)

theorem Assembles.exposed {tokens : List TokenKind} {expr : Expr}
    (assembles : expr.Assembles features tokens) : Exposed tokens := by
  cases expr with
  | integer | name =>
      cases assembles
      exact exposed_cons rfl _
  | array | call =>
      obtain ⟨_, rfl, _⟩ := assembles
      exact exposed_cons rfl _
  | unary operator =>
      obtain ⟨_, rfl, _⟩ := assembles
      exact exposed_cons operator.weight_token _
  | binary operator =>
      obtain ⟨_, _, rfl, first, _⟩ := assembles
      exact first.paired.exposed operator.weight_token _
  | index =>
      obtain ⟨_, _, rfl, first, _⟩ := assembles
      exact first.paired.exposed rfl _

end Expr

namespace ExprForm

variable {features : FeatureSet}

theorem Derives.assembles_of_place {tokens : List TokenKind} {expr : Expr}
    (derived : Derives features tokens (.place expr)) : expr.Assembles features tokens := by
  cases derived with
  | name => rfl
  | call _ _ inner => exact ⟨_, rfl, inner⟩
  | index _ first second => exact ⟨_, _, rfl, first, second⟩

theorem Derives.operand_cases {tokens : List TokenKind} {expr : Expr}
    (derived : Derives features tokens (.operand expr)) :
    expr.Assembles features tokens ∧ expr.level = operandLevel ∨
      expr.Encloses features tokens := by
  cases derived with
  | @sign _ _ operator isSign under =>
      have level := UnaryOperator.level_of_sign isSign
      refine .inl ⟨⟨_, rfl, ?_⟩, ?_⟩
      · rw [level]
        exact .ofOperand under
      · cases operator with
        | not => contradiction
        | negate | plus => rfl
  | integer => exact .inl ⟨rfl, rfl⟩
  | ofPlace place => exact .inl ⟨place.assembles_of_place, place.level_of_place⟩
  | parentheses inner => exact .inr ⟨_, rfl, inner⟩
  | array _ inner => exact .inl ⟨⟨_, rfl, inner⟩, rfl⟩

/-- Tokens of an expression are put together at its root, where its level allows it, or
stand in parentheses. -/
theorem Derives.expression_cases {tokens : List TokenKind} {level : Nat} {expr : Expr}
    (derived : Derives features tokens (.expression level expr)) :
    expr.Assembles features tokens ∧ level ≤ expr.level ∨ expr.Encloses features tokens := by
  generalize shape : ExprForm.expression level expr = form at derived
  induction derived generalizing level with
  | ofOperand operand =>
      cases shape
      exact operand.operand_cases.imp_left fun ⟨assembles, isOperand⟩ =>
        ⟨assembles, Nat.le_of_eq isOperand.symm⟩
  | ofTighter _ _ inductionHypothesis =>
      cases shape
      exact (inductionHypothesis rfl).imp_left fun ⟨assembles, below⟩ =>
        ⟨assembles, Nat.le_of_succ_le below⟩
  | binary operator first second =>
      cases shape
      exact .inl ⟨⟨_, _, rfl, first, second⟩, Nat.le_refl _⟩
  | negation negated =>
      cases shape
      exact .inl ⟨⟨_, rfl, negated⟩, Nat.le_refl _⟩
  | _ => cases shape

/-- Exposed tokens of an expression are put together at its root. -/
theorem Derives.assembles_of_exposed {tokens : List TokenKind} {level : Nat} {expr : Expr}
    (derived : Derives features tokens (.expression level expr)) (exposed : Exposed tokens) :
    expr.Assembles features tokens ∧ level ≤ expr.level := by
  rcases derived.expression_cases with found | ⟨inner, isEnclosed, innerDerived⟩
  · exact found
  · exact absurd isEnclosed (exposed.ne_parentheses innerDerived.paired)

/-- What derives an expression in parentheses derives it without them, too. -/
theorem Derives.of_parentheses {tokens : List TokenKind} {level : Nat} {expr : Expr}
    (derived : Derives features (.symbol .leftParen :: (tokens ++ [.symbol .rightParen]))
      (.expression level expr)) (paired : Paired tokens) :
    Derives features tokens (.expression 1 expr) := by
  rcases derived.expression_cases with ⟨assembles, _⟩ | ⟨inner, isEnclosed, innerDerived⟩
  · exact absurd rfl (assembles.exposed.ne_parentheses paired)
  · obtain rfl := (List.append_inj' (List.cons.inj isEnclosed).2 rfl).1
    exact innerDerived

/-! ## Tokens that miss a form -/

/-- Whether tokens cannot stand for a form, whatever tokens of its context they stand among. -/
inductive Misses (features : FeatureSet) (form : ExprForm) (tokens : List TokenKind) : Prop where
  /-- Parentheses aside the tokens are those of the form, but they are grouped otherwise. -/
  | regrouped (paired : Paired tokens) (same : solid tokens = solid form.tokens)
      (underivable : ¬ Derives features tokens form)
  /-- There are too few tokens. -/
  | fewer (fewer : (solid tokens).length < (solid form.tokens).length)

theorem Misses.not_derives {form : ExprForm} {tokens : List TokenKind}
    (misses : Misses features form tokens) : ¬ Derives features tokens form := by
  intro derived
  cases misses with
  | regrouped _ _ underivable => exact underivable derived
  | fewer fewer => exact absurd derived.solid_eq (by intro same; simp [same] at fewer)

theorem Misses.length_solid_le {form : ExprForm} {tokens : List TokenKind}
    (misses : Misses features form tokens) :
    (solid tokens).length ≤ (solid form.tokens).length := by
  cases misses with
  | regrouped _ same _ => exact Nat.le_of_eq (congrArg List.length same)
  | fewer fewer => exact Nat.le_of_lt fewer

/-- Tokens that miss a part make the whole miss its form, when the whole is derived only
by way of the part. -/
theorem Misses.within {part whole : ExprForm} {slot tokens before after : List TokenKind}
    {needed : Bool} (misses : Misses features part slot)
    (isWhole : whole.tokens = before ++ (Expr.parenthesizeTokens needed part.tokens ++ after))
    (isTokens : tokens = before ++ (slot ++ after))
    (inverts : Paired slot → (solid slot).length = (solid part.tokens).length →
      Derives features tokens whole → Derives features slot part) :
    Misses features whole tokens := by
  cases misses with
  | regrouped paired same underivable =>
      refine .regrouped ?_ ?_ fun derived => underivable (inverts paired (by rw [same]) derived)
      · have around := whole.paired_tokens
        rw [isWhole] at around
        rw [isTokens]
        exact around.replace (part.paired_tokens.parenthesized needed) paired
      · simp [isTokens, isWhole, same]
  | fewer fewer =>
      refine .fewer ?_
      simp only [isTokens, isWhole, solid_append, solid_parenthesizeTokens, List.length_append]
      omega

/-- An expression without the parentheses that a tight place forces misses it. -/
theorem misses_tokens {level : Nat} {expr : Expr} (looser : expr.level < level) :
    Misses features (.expression level expr) expr.tokens := by
  refine .regrouped expr.paired_tokens rfl fun derived => ?_
  have := (derived.assembles_of_exposed expr.exposed_tokens).2
  omega

theorem Misses.parenthesized {level : Nat} {expr : Expr} {tokens : List TokenKind}
    (misses : Misses features (.expression 1 expr) tokens) (positive : 1 ≤ level)
    (needed : Bool) :
    Misses features (.expression level expr) (Expr.parenthesizeTokens needed tokens) := by
  cases misses with
  | regrouped paired same underivable =>
      have sameSolid := (solid_parenthesizeTokens needed tokens).trans same
      refine .regrouped (paired.parenthesized needed) sameSolid fun derived => ?_
      cases needed with
      | false => exact underivable (derived.loosen (Nat.le_refl 1) positive)
      | true => exact underivable (derived.of_parentheses paired)
  | fewer fewer =>
      refine .fewer ?_
      rw [solid_parenthesizeTokens]
      exact fewer

/-- As many tokens as a part has end where the part does. -/
theorem Derives.eq_of_cut {form : ExprForm} {slot part back rest : List TokenKind}
    {kind : TokenKind} (derived : Derives features part form) (light : kind.weight = 0)
    (count : (solid slot).length = (solid form.tokens).length)
    (same : slot ++ kind :: back = part ++ kind :: rest) : slot = part ∧ back = rest := by
  rw [← derived.solid_eq] at count
  exact append_cons_inj_of_solid light light count same

theorem Derives.items_of_list {tokens : List TokenKind} {exprs : List Expr}
    (derived : Derives features tokens (.list exprs)) (nonempty : exprs ≠ []) :
    Derives features tokens (.items exprs) := by
  cases derived with
  | empty => contradiction
  | nonempty found => exact found

theorem Derives.items_cons {tokens : List TokenKind} {expr : Expr} {exprs : List Expr}
    (derived : Derives features tokens (.items (expr :: exprs))) (nonempty : exprs ≠ []) :
    ∃ first rest, tokens = first ++ .symbol .comma :: rest ∧
      Derives features first (.expression 1 expr) ∧ Derives features rest (.items exprs) := by
  cases derived with
  | one => contradiction
  | more first rest => exact ⟨_, _, rfl, first, rest⟩

section Contexts

variable {level : Nat} {slot : List TokenKind}

theorem Misses.operand {operator : UnaryOperator} {operand : Expr}
    (misses : Misses features (.expression operator.level operand) slot) :
    Misses features (.expression level (.unary operator operand)) (operator.token :: slot) := by
  obtain ⟨needed, isTokens⟩ := Expr.tokens_unary operator operand
  have isWhole : (ExprForm.expression level (.unary operator operand)).tokens =
      [operator.token] ++ (Expr.parenthesizeTokens needed operand.tokens ++ []) := by
    simp [ExprForm.tokens, isTokens]
  refine misses.within isWhole (by simp) fun _ _ derived => ?_
  obtain ⟨⟨inner, same, operandDerived⟩, _⟩ :=
    derived.assembles_of_exposed (exposed_cons operator.weight_token _)
  obtain rfl := (List.cons.inj same).2
  exact operandDerived

theorem Misses.left {operator : BinaryOperator} {left right : Expr}
    (misses : Misses features (.expression operator.level left) slot) :
    Misses features (.expression level (.binary operator left right))
      (slot ++ operator.token ::
        Expr.parenthesizeTokens (right.needsParensRight operator) right.tokens) := by
  have isWhole : (ExprForm.expression level (.binary operator left right)).tokens =
      [] ++ (Expr.parenthesizeTokens (left.needsParensLeft operator) left.tokens ++
        operator.token :: Expr.parenthesizeTokens (right.needsParensRight operator)
          right.tokens) := rfl
  refine misses.within isWhole rfl fun paired count derived => ?_
  obtain ⟨⟨first, second, same, leftDerived, _⟩, _⟩ :=
    derived.assembles_of_exposed (paired.exposed operator.weight_token _)
  obtain ⟨rfl, _⟩ := leftDerived.eq_of_cut operator.weight_token count same
  exact leftDerived

theorem Misses.right {operator : BinaryOperator} {left right : Expr}
    (misses : Misses features (.expression (operator.level + 1) right) slot) :
    Misses features (.expression level (.binary operator left right))
      (Expr.parenthesizeTokens (left.needsParensLeft operator) left.tokens ++
        operator.token :: slot) := by
  have isWhole : (ExprForm.expression level (.binary operator left right)).tokens =
      (Expr.parenthesizeTokens (left.needsParensLeft operator) left.tokens ++
        [operator.token]) ++
        (Expr.parenthesizeTokens (right.needsParensRight operator) right.tokens ++ []) := by
    simp [ExprForm.tokens, Expr.tokens]
  refine misses.within isWhole (by simp) fun _ _ derived => ?_
  have leftPaired := left.paired_tokens.parenthesized (left.needsParensLeft operator)
  obtain ⟨⟨first, second, same, leftDerived, rightDerived⟩, _⟩ :=
    derived.assembles_of_exposed (leftPaired.exposed operator.weight_token _)
  have count := congrArg List.length
    (solid_parenthesizeTokens (left.needsParensLeft operator) left.tokens)
  obtain ⟨_, rfl⟩ := leftDerived.eq_of_cut operator.weight_token count same
  exact rightDerived

/-- With the `not` that its right operand starts with, `is` is one token less. -/
theorem Misses.merged {left right : Expr} {bound : Nat} {later : List TokenKind}
    (misses : Misses features (.expression bound right) (.keyword .not :: later)) :
    Misses features (.expression level (.binary .is left right))
      (Expr.parenthesizeTokens (left.needsParensLeft .is) left.tokens ++
        .keyword .isNot :: later) := by
  have atMost := misses.length_solid_le
  refine .fewer ?_
  simp only [ExprForm.tokens, Expr.tokens, solid_append, solid_cons, solid_parenthesizeTokens,
    TokenKind.weight_keyword, BinaryOperator.weight_token, if_true, List.length_append,
    List.length_cons] at atMost ⊢
  omega

theorem Misses.base {base offset : Expr} (misses : Misses features (.expression 1 base) slot) :
    Misses features (.expression level (.index base offset))
      (slot ++ .symbol .leftBracket :: (offset.tokens ++ [.symbol .rightBracket])) := by
  have isWhole : (ExprForm.expression level (.index base offset)).tokens =
      [] ++ (Expr.parenthesizeTokens false base.tokens ++
        .symbol .leftBracket :: (offset.tokens ++ [.symbol .rightBracket])) := rfl
  refine misses.within isWhole rfl fun paired count derived => ?_
  obtain ⟨⟨first, second, same, baseDerived, _⟩, _⟩ :=
    derived.assembles_of_exposed (paired.exposed rfl _)
  obtain ⟨rfl, _⟩ := baseDerived.eq_of_cut rfl count same
  exact .ofOperandAt (.ofPlace baseDerived) (Nat.le_refl 1) (by decide)

theorem Misses.offset {base offset : Expr}
    (misses : Misses features (.expression 1 offset) slot) :
    Misses features (.expression level (.index base offset))
      (base.tokens ++ .symbol .leftBracket :: (slot ++ [.symbol .rightBracket])) := by
  have isWhole : (ExprForm.expression level (.index base offset)).tokens =
      (base.tokens ++ [.symbol .leftBracket]) ++
        (Expr.parenthesizeTokens false offset.tokens ++ [.symbol .rightBracket]) := by
    simp [ExprForm.tokens, Expr.tokens, Expr.parenthesizeTokens]
  refine misses.within isWhole (by simp) fun _ _ derived => ?_
  obtain ⟨⟨first, second, same, baseDerived, offsetDerived⟩, _⟩ :=
    derived.assembles_of_exposed (base.paired_tokens.exposed rfl _)
  obtain ⟨_, sameRest⟩ := baseDerived.eq_of_cut rfl rfl same
  obtain rfl := (List.append_inj' sameRest rfl).1
  exact offsetDerived

theorem Misses.array {items : List Expr} (misses : Misses features (.items items) slot)
    (nonempty : items ≠ []) :
    Misses features (.expression level (.array items))
      (.symbol .leftBracket :: (slot ++ [.symbol .rightBracket])) := by
  have isWhole : (ExprForm.expression level (.array items)).tokens =
      [.symbol .leftBracket] ++
        (Expr.parenthesizeTokens false (Expr.listTokens items) ++ [.symbol .rightBracket]) := rfl
  refine misses.within isWhole rfl fun _ _ derived => ?_
  obtain ⟨⟨inner, same, itemsDerived⟩, _⟩ := derived.assembles_of_exposed (exposed_cons rfl _)
  obtain rfl := (List.append_inj' (List.cons.inj same).2 rfl).1
  exact itemsDerived.items_of_list nonempty

theorem Misses.call {function : String} {arguments : List Expr}
    (misses : Misses features (.items arguments) slot) (nonempty : arguments ≠ []) :
    Misses features (.expression level (.call function arguments))
      (.identifier function :: .symbol .leftParen :: (slot ++ [.symbol .rightParen])) := by
  have isWhole : (ExprForm.expression level (.call function arguments)).tokens =
      [.identifier function, .symbol .leftParen] ++
        (Expr.parenthesizeTokens false (Expr.listTokens arguments) ++
          [.symbol .rightParen]) := rfl
  refine misses.within isWhole rfl fun _ _ derived => ?_
  obtain ⟨⟨inner, same, argumentsDerived⟩, _⟩ :=
    derived.assembles_of_exposed (exposed_cons rfl _)
  obtain rfl := (List.append_inj' (List.cons.inj (List.cons.inj same).2).2 rfl).1
  exact argumentsDerived.items_of_list nonempty

theorem Misses.one {expr : Expr} (misses : Misses features (.expression 1 expr) slot) :
    Misses features (.items [expr]) slot := by
  have isWhole : (ExprForm.items [expr]).tokens =
      [] ++ (Expr.parenthesizeTokens false expr.tokens ++ []) := by
    simp [ExprForm.tokens, Expr.listTokens, Expr.parenthesizeTokens]
  refine misses.within isWhole (by simp) fun _ _ derived => ?_
  cases derived with
  | one derived => exact derived
  | more _ rest => exact absurd rfl rest.exprs_ne_nil

theorem Misses.first {expr : Expr} {exprs : List Expr}
    (misses : Misses features (.expression 1 expr) slot) (nonempty : exprs ≠ []) :
    Misses features (.items (expr :: exprs))
      (slot ++ .symbol .comma :: Expr.listTokens exprs) := by
  have isWhole : (ExprForm.items (expr :: exprs)).tokens =
      [] ++ (Expr.parenthesizeTokens false expr.tokens ++
        .symbol .comma :: Expr.listTokens exprs) :=
    Expr.listTokens_cons nonempty expr
  refine misses.within isWhole rfl fun _ count derived => ?_
  obtain ⟨first, rest, same, firstDerived, _⟩ := derived.items_cons nonempty
  obtain ⟨rfl, _⟩ := firstDerived.eq_of_cut rfl count same
  exact firstDerived

theorem Misses.later {expr : Expr} {exprs : List Expr}
    (misses : Misses features (.items exprs) slot) (nonempty : exprs ≠ []) :
    Misses features (.items (expr :: exprs)) (expr.tokens ++ .symbol .comma :: slot) := by
  have isWhole : (ExprForm.items (expr :: exprs)).tokens =
      (expr.tokens ++ [.symbol .comma]) ++
        (Expr.parenthesizeTokens false (Expr.listTokens exprs) ++ []) := by
    simp [ExprForm.tokens, Expr.listTokens_cons nonempty, Expr.parenthesizeTokens]
  refine misses.within isWhole (by simp) fun _ _ derived => ?_
  obtain ⟨first, rest, same, firstDerived, restDerived⟩ := derived.items_cons nonempty
  obtain ⟨_, rfl⟩ := firstDerived.eq_of_cut rfl rfl same
  exact restDerived

end Contexts

end ExprForm

end Scriptlet
