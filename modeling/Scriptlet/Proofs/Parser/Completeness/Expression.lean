import Scriptlet.Proofs.Grammar.Nesting
import Scriptlet.Proofs.Parser.Soundness.Expression

/-!
Contract: the parser accepts every expression that its tokens derive and that it
has the room for.

Owns:
- what tokens ask of the room that is left, on which alone it depends whether
  they are accepted or meet the nesting limit;
- the completeness invariant of each form of the grammar, one lemma for each
  production, and its proof by induction on derivations.

The grammar is left-recursive where the parser loops.  The invariant of a left
operand is therefore stated with what comes after it: parsing the operand and
going on is going on with the loop from the operand's tree.
-/

namespace Scriptlet

namespace Parser

open ExprForm

/-- The token cannot go on with an expression that stands before it. -/
def EndsExpression (kind : TokenKind) : Prop :=
  BinaryOperator.ofToken? kind = none ∧ kind ≠ .symbol .leftParen ∧
    kind ≠ .symbol .leftBracket

instance (kind : TokenKind) : Decidable (EndsExpression kind) := by
  unfold EndsExpression
  infer_instance

theorem EndsExpression.stops {kind : TokenKind} (ends : EndsExpression kind) (least : Nat) :
    Stops least kind := by
  intro operator found
  rw [ends.1] at found
  cases found

theorem stops_token {operator : BinaryOperator} {least : Nat} (below : operator.level < least) :
    Stops least operator.token := by
  intro other found
  rw [BinaryOperator.ofToken?_token] at found
  cases found
  exact below

theorem token_ne_leftParen (operator : BinaryOperator) :
    operator.token ≠ .symbol .leftParen := by
  cases operator <;> decide

theorem token_ne_leftBracket (operator : BinaryOperator) :
    operator.token ≠ .symbol .leftBracket := by
  cases operator <;> decide

/-! ## Room -/

/-- What parsing some tokens asks of the room that is left.  More room is never
worse. -/
structure Demand where
  fits : Nat → Prop
  grows : ∀ ⦃room : Nat⦄, fits room → fits (room + 1)

namespace Demand

variable {first second : Demand}

/-- Nothing is asked. -/
def nothing : Demand where
  fits _ := True
  grows _ := id

/-- What two parts ask that are parsed in the same room. -/
def and (first second : Demand) : Demand where
  fits room := first.fits room ∧ second.fits room
  grows _ both := ⟨first.grows both.1, second.grows both.2⟩

/-- What a part asks for which one unit of the room is taken. -/
def inside (demand : Demand) : Demand where
  fits
    | 0 => False
    | room + 1 => demand.fits room
  grows
    | 0, fits => fits.elim
    | _ + 1, fits => demand.grows fits

/-- That an expression is not too high, whatever the room. -/
def low (expr : Expr) : Demand where
  fits _ := expr.height ≤ maxNesting
  grows _ := id

/-- Room for some nesting, and that a height is not too high. -/
def upTo (nesting height : Nat) : Demand where
  fits room := nesting ≤ room ∧ height ≤ maxNesting
  grows _ both := ⟨Nat.le_succ_of_le both.1, both.2⟩

/-- Whether what is enough for the first demand is enough for the second. -/
def Covers (first second : Demand) : Prop :=
  ∀ ⦃room : Nat⦄, first.fits room → second.fits room

theorem Covers.refl (demand : Demand) : demand.Covers demand :=
  fun _ => id

theorem Covers.trans {third : Demand} (covers : first.Covers second)
    (also : second.Covers third) : first.Covers third :=
  fun _ fits => also (covers fits)

theorem Covers.and {firstLighter secondLighter : Demand} (covers : first.Covers firstLighter)
    (also : second.Covers secondLighter) :
    (first.and second).Covers (firstLighter.and secondLighter) :=
  fun _ fits => ⟨covers fits.1, also fits.2⟩

theorem Covers.inside (covers : first.Covers second) : first.inside.Covers second.inside := by
  rintro (_ | room) fits
  · exact fits
  · exact covers fits

end Demand

/-- What a form asks for at least, however it is written. -/
def leastDemand : ExprForm → Demand
  | .expression level expr => .upTo (expr.nesting + expr.enclosure level) expr.height
  | .operand expr => .upTo (expr.nesting + expr.enclosure operandLevel - 1) expr.height
  | .place expr => .upTo (expr.nesting - 1) expr.height
  | .list exprs | .items exprs => .upTo (Expr.nestingOfList exprs) (Expr.heightOfList exprs)

/-- What the parser does on tokens that derive a form, whatever follows them and
whatever the limit on items is.  Expressions and places lead into their loops;
the other forms are parsed as a whole. -/
def Completes (features : FeatureSet) (demand : Demand) (tokens : List TokenKind) :
    ExprForm → Prop
  | .expression level expr =>
      ¬ demand.fits 0 ∧
      ∀ ⦃limit room least : Nat⦄ ⦃feed : Feed⦄ ⦃kind : TokenKind⦄ ⦃rest final : List TokenKind⦄
        ⦃result : Expr⦄ ⦃goesOn : Prop⦄, least ≤ level → feed.kinds = tokens ++ kind :: rest →
        feed.kinds.length ≤ limit → Stops (level + 1) kind →
        kind ≠ .symbol .leftParen → kind ≠ .symbol .leftBracket →
        (∀ count (after : Feed), after.kinds = kind :: rest → (kind :: rest).length ≤ count →
          Yields goesOn (chain least (expressionAt ⟨features, limit⟩ room) count expr) after
            result final) →
        Yields (demand.fits (room + 1) ∧ goesOn)
          (expressionAt ⟨features, limit⟩ (room + 1) least) feed result final
  | .operand expr =>
      ∀ ⦃limit room : Nat⦄ ⦃feed : Feed⦄ ⦃kind : TokenKind⦄ ⦃rest : List TokenKind⦄,
        feed.kinds = tokens ++ kind :: rest → feed.kinds.length ≤ limit →
        kind ≠ .symbol .leftParen → kind ≠ .symbol .leftBracket →
        Yields (demand.fits room) (operand ⟨features, limit⟩ room) feed expr (kind :: rest)
  | .place expr =>
      ∀ ⦃limit room : Nat⦄ ⦃feed : Feed⦄ ⦃kind : TokenKind⦄ ⦃rest final : List TokenKind⦄
        ⦃result : Expr⦄ ⦃goesOn : Prop⦄, feed.kinds = tokens ++ kind :: rest →
        feed.kinds.length ≤ limit → kind ≠ .symbol .leftParen →
        (∀ count (after : Feed), after.kinds = kind :: rest → (kind :: rest).length ≤ count →
          Yields goesOn (indexes ⟨features, limit⟩ (expression ⟨features, limit⟩ room) count expr)
            after result final) →
        Yields (demand.fits room ∧ goesOn)
          (place ⟨features, limit⟩ (expression ⟨features, limit⟩ room)) feed result final
  | .list exprs =>
      ∀ ⦃limit room : Nat⦄ ⦃feed : Feed⦄ ⦃close : Symbol⦄ ⦃kind : TokenKind⦄
        ⦃rest : List TokenKind⦄, close = .rightParen ∨ close = .rightBracket →
        feed.kinds = tokens ++ .symbol close :: kind :: rest → feed.kinds.length ≤ limit →
        Yields (demand.fits room)
          (listUpTo ⟨features, limit⟩ close (expression ⟨features, limit⟩ room)) feed exprs
          (kind :: rest)
  | .items exprs =>
      ∀ ⦃limit room count : Nat⦄ ⦃feed : Feed⦄ ⦃close : Symbol⦄ ⦃rest : List TokenKind⦄,
        close = .rightParen ∨ close = .rightBracket →
        feed.kinds = tokens ++ .symbol close :: rest → feed.kinds.length ≤ limit →
        feed.kinds.length ≤ count →
        Yields (demand.fits room) (items (expression ⟨features, limit⟩ room) count) feed exprs
          (.symbol close :: rest)

/-! ## Ends of the loops -/

theorem yields_chain_end {operandAt : Nat → Parser Feed Expr} {least count : Nat} {left : Expr}
    {feed : Feed} {kind : TokenKind} {rest : List TokenKind}
    (kinds : feed.kinds = kind :: rest) (stops : Stops least kind) :
    Yields True (chain least operandAt count left) feed left (kind :: rest) := by
  cases count with
  | zero => exact .ofPure kinds
  | succ count =>
      unfold Yields chain
      rw [peek_bind, Feed.current_of_kinds kinds]
      cases found : BinaryOperator.ofToken? kind with
      | none => exact Yields.ofPure kinds
      | some operator =>
          simp only [if_pos (stops operator found)]
          exact Yields.ofPure kinds

theorem yields_indexes_end {grammar : Grammar} {expression : Parser Feed Expr} {count : Nat}
    {base : Expr} {feed : Feed} {kind : TokenKind} {rest : List TokenKind}
    (kinds : feed.kinds = kind :: rest) (closed : kind ≠ .symbol .leftBracket) :
    Yields True (indexes grammar expression count base) feed base (kind :: rest) := by
  cases count with
  | zero => exact .ofPure kinds
  | succ count =>
      unfold Yields indexes
      rw [peek_bind, Feed.current_of_kinds kinds, if_neg (fun opened => closed opened.1)]
      exact Yields.ofPure kinds

section Forms

variable {features : FeatureSet} {demand : Demand}

/-- The invariant of an expression, at a token that stops it. -/
theorem Completes.yields_expressionAt {tokens : List TokenKind} {level least limit room : Nat}
    {expr : Expr} {feed : Feed} {kind : TokenKind} {rest : List TokenKind}
    (complete : Completes features demand tokens (.expression level expr)) (below : least ≤ level)
    (kinds : feed.kinds = tokens ++ kind :: rest) (within : feed.kinds.length ≤ limit)
    (stops : Stops least kind) (noCall : kind ≠ .symbol .leftParen)
    (noIndex : kind ≠ .symbol .leftBracket) :
    Yields (demand.fits room) (expressionAt ⟨features, limit⟩ room least) feed expr
      (kind :: rest) := by
  cases room with
  | zero => exact yields_tooDeep complete.1
  | succ room =>
      have stopsAbove : Stops (level + 1) kind := fun operator found =>
        Nat.lt_succ_of_lt (Nat.lt_of_lt_of_le (stops operator found) below)
      exact (complete.2 below kinds within stopsAbove noCall noIndex fun count after afterKinds _ =>
        yields_chain_end afterKinds stops).of_iff (by simp)

/-- The invariant of a loosest expression, at a token that ends it. -/
theorem Completes.yields_expression {tokens : List TokenKind} {limit room : Nat} {expr : Expr}
    {feed : Feed} {kind : TokenKind} {rest : List TokenKind}
    (complete : Completes features demand tokens (.expression 1 expr))
    (kinds : feed.kinds = tokens ++ kind :: rest) (within : feed.kinds.length ≤ limit)
    (ends : EndsExpression kind) :
    Yields (demand.fits room) (expression ⟨features, limit⟩ room) feed expr (kind :: rest) :=
  complete.yields_expressionAt (Nat.zero_le 1) kinds within (ends.stops 0) ends.2.1 ends.2.2

/-- The invariant of a place, at a token that ends it. -/
theorem Completes.yields_place {tokens : List TokenKind} {limit room : Nat} {expr : Expr}
    {feed : Feed} {kind : TokenKind} {rest : List TokenKind}
    (complete : Completes features demand tokens (.place expr))
    (kinds : feed.kinds = tokens ++ kind :: rest) (within : feed.kinds.length ≤ limit)
    (noCall : kind ≠ .symbol .leftParen) (noIndex : kind ≠ .symbol .leftBracket) :
    Yields (demand.fits room) (place ⟨features, limit⟩ (expression ⟨features, limit⟩ room)) feed
      expr (kind :: rest) :=
  (complete kinds within noCall fun _ _ afterKinds _ =>
    yields_indexes_end afterKinds noIndex).of_iff (by simp)

/-! ## Binary operators and negations -/

theorem completes_ofOperand {tokens : List TokenKind} {expr : Expr}
    (derived : Derives features tokens (.operand expr))
    (complete : Completes features demand tokens (.operand expr)) :
    Completes features demand.inside tokens (.expression operandLevel expr) := by
  refine ⟨not_false, ?_⟩
  intro limit room least feed kind rest final result goesOn _ kinds within _ noCall noIndex
    continues
  obtain ⟨first, head, starts⟩ := derived.startsAs
  have current := Feed.current_of_head kinds head
  have notNegation : ¬(feed.current.kind = .keyword .not ∧ least ≤ notLevel) := by
    rintro ⟨isNot, _⟩
    rw [← current, isNot] at starts
    cases starts
  rw [expressionAt_succ]
  unfold Yields climb
  rw [peek_bind, if_neg notNegation]
  refine (complete kinds within noCall noIndex).bind fun after afterKinds =>
    continues _ after afterKinds ?_
  rw [kinds, List.length_append] at within
  exact Nat.le_trans (Nat.le_add_left _ _) within

/-- The invariant of an expression holds at every looser level. -/
theorem Completes.loosen {tokens : List TokenKind} {looser level : Nat} {expr : Expr}
    (complete : Completes features demand tokens (.expression level expr))
    (below : looser ≤ level) : Completes features demand tokens (.expression looser expr) := by
  refine ⟨complete.1, ?_⟩
  intro limit room least feed kind rest final result goesOn atLeast kinds within stops noCall
    noIndex continues
  have stopsAbove : Stops (level + 1) kind := fun operator found =>
    Nat.lt_of_lt_of_le (stops operator found) (Nat.succ_le_succ below)
  exact complete.2 (Nat.le_trans atLeast below) kinds within stopsAbove noCall noIndex continues

/-- The right operand takes room of its own, the left one does not. -/
theorem completes_binary {leftTokens rightTokens : List TokenKind} {left right : Expr}
    {operator : BinaryOperator} {leftDemand rightDemand : Demand}
    (leftComplete : Completes features leftDemand leftTokens (.expression operator.level left))
    (rightComplete : Completes features rightDemand rightTokens
      (.expression (operator.level + 1) right)) :
    Completes features
      (leftDemand.and (rightDemand.inside.and (.low (.binary operator left right))))
      (leftTokens ++ operator.token :: rightTokens)
      (.expression operator.level (.binary operator left right)) := by
  refine ⟨fun fits => leftComplete.1 fits.1, ?_⟩
  intro limit room least feed kind rest final result goesOn below kinds within stops noCall noIndex
    continues
  rw [List.append_assoc, List.cons_append] at kinds
  refine (leftComplete.2 below kinds within (stops_token (Nat.lt_succ_self _))
    (token_ne_leftParen operator) (token_ne_leftBracket operator) ?_).of_iff
      (and_assoc.trans (and_congr_right fun _ => and_assoc)).symm
  intro count after afterKinds enough
  cases count with
  | zero => cases enough
  | succ count =>
      unfold Yields chain
      rw [peek_bind, Feed.current_of_kinds afterKinds, BinaryOperator.ofToken?_token]
      simp only [if_neg (Nat.not_lt.mpr below)]
      have rightWithin : (rightTokens ++ kind :: rest).length ≤ limit := by
        rw [kinds] at within
        simp only [List.length_append, List.length_cons] at within ⊢
        omega
      refine (yields_advance afterKinds (by simp)).pass fun afterOperator operatorKinds => ?_
      refine (rightComplete.yields_expressionAt (Nat.le_refl _) operatorKinds
        (by rw [operatorKinds]; exact rightWithin) stops noCall noIndex).bind
          fun afterRight rightKinds => ?_
      refine (yields_bounded rightKinds).bind fun afterJoined joinedKinds => ?_
      apply continues count afterJoined joinedKinds
      simp only [List.length_append, List.length_cons] at enough ⊢
      omega

theorem completes_negation {tokens : List TokenKind} {expr : Expr}
    (complete : Completes features demand tokens (.expression notLevel expr)) :
    Completes features (demand.inside.and (.low (.unary .not expr))) (.keyword .not :: tokens)
      (.expression notLevel (.unary .not expr)) := by
  refine ⟨fun fits => fits.1, ?_⟩
  intro limit room least feed kind rest final result goesOn below kinds within stops noCall noIndex
    continues
  -- No binary operator stands at the level of `not`, so what stops the negation
  -- stops its operand.
  have operandStops : Stops notLevel kind := by
    intro operator found
    have atMost := stops operator found
    have other := operator.level_ne_notLevel
    omega
  rw [List.cons_append] at kinds
  have operandWithin : (tokens ++ kind :: rest).length ≤ limit := by
    rw [kinds, List.length_cons] at within
    omega
  rw [expressionAt_succ]
  unfold climb
  refine Yields.of_iff ?_ and_assoc.symm
  unfold Yields
  rw [peek_bind, if_pos ⟨Feed.current_of_kinds kinds, below⟩]
  refine (yields_advance kinds (by simp)).pass fun afterNot notKinds => ?_
  refine (complete.yields_expressionAt (Nat.le_refl _) notKinds
    (by rw [notKinds]; exact operandWithin) operandStops noCall noIndex).bind
      fun afterNegated negatedKinds => ?_
  refine (yields_bounded negatedKinds).bind fun afterFirst firstKinds => ?_
  apply continues _ afterFirst firstKinds
  rw [List.length_append] at operandWithin
  exact Nat.le_trans (Nat.le_add_left _ _) operandWithin

/-! ## Operands -/

/-- A sign needs room for the operand under it. -/
theorem completes_sign {tokens : List TokenKind} {expr : Expr} {operator : UnaryOperator}
    (isSign : operator ≠ .not) (complete : Completes features demand tokens (.operand expr)) :
    Completes features (demand.inside.and (.low (.unary operator expr)))
      (operator.token :: tokens) (.operand (.unary operator expr)) := by
  intro limit room feed kind rest kinds within noCall noIndex
  rw [List.cons_append] at kinds
  have operandWithin : (tokens ++ kind :: rest).length ≤ limit := by
    rw [kinds, List.length_cons] at within
    omega
  cases room with
  | zero =>
      rw [operand_zero]
      unfold Yields signed
      rw [peek_bind, Feed.current_of_kinds kinds, UnaryOperator.ofSign?_token isSign]
      exact (yields_advance kinds (by simp)).pass fun _ _ =>
        (yields_tooDeep not_false).bind fun _ afterKinds => yields_bounded afterKinds
  | succ room =>
      rw [operand_succ]
      unfold Yields signed
      rw [peek_bind, Feed.current_of_kinds kinds, UnaryOperator.ofSign?_token isSign]
      refine (yields_advance kinds (by simp)).pass fun afterSign signKinds => ?_
      exact (complete signKinds (by rw [signKinds]; exact operandWithin) noCall noIndex).bind
        fun _ afterKinds => yields_bounded afterKinds

/-- An operand that starts with no sign is parsed without one. -/
theorem operand_of_noSign {grammar : Grammar} {room : Nat} {feed : Feed}
    (noSign : UnaryOperator.ofSign? feed.current.kind = none) :
    operand grammar room feed = primary grammar (expression grammar room) feed := by
  cases room with
  | zero =>
      rw [operand_zero, signed, peek_bind, noSign]
  | succ room =>
      rw [operand_succ, signed, peek_bind, noSign]

theorem completes_integer (value : Int64) :
    Completes features .nothing [.integer value] (.operand (.integer value)) := by
  intro limit room feed kind rest kinds _ _ _
  have current := Feed.current_of_kinds kinds
  unfold Yields
  rw [operand_of_noSign (by rw [current]; rfl), primary, peek_bind, current]
  exact (yields_advance kinds (by simp)).pass fun _ => .ofPure

theorem completes_ofPlace {tokens : List TokenKind} {expr : Expr}
    (derived : Derives features tokens (.place expr))
    (complete : Completes features demand tokens (.place expr)) :
    Completes features demand tokens (.operand expr) := by
  intro limit room feed kind rest kinds within noCall noIndex
  obtain ⟨name, head⟩ := derived.startsAs
  have current := Feed.current_of_head kinds head
  unfold Yields
  rw [operand_of_noSign (by rw [current]; rfl), primary, peek_bind, current]
  exact complete.yields_place kinds within noCall noIndex

theorem completes_parentheses {tokens : List TokenKind} {expr : Expr}
    (complete : Completes features demand tokens (.expression 1 expr)) :
    Completes features demand (.symbol .leftParen :: (tokens ++ [.symbol .rightParen]))
      (.operand expr) := by
  intro limit room feed kind rest kinds within _ _
  simp only [List.cons_append, List.append_assoc, List.nil_append] at kinds
  have current := Feed.current_of_kinds kinds
  unfold Yields
  rw [operand_of_noSign (by rw [current]; rfl), primary, peek_bind, current]
  refine (yields_advance kinds (by simp)).pass fun afterOpen openKinds => ?_
  have innerWithin : afterOpen.kinds.length ≤ limit := by
    rw [kinds, List.length_cons] at within
    rw [openKinds]
    omega
  refine (complete.yields_expression openKinds innerWithin (by decide)).close
    fun afterInner innerKinds => ?_
  exact (yields_expect innerKinds (by simp)).pass fun _ => .ofPure

theorem completes_array {tokens : List TokenKind} {exprs : List Expr}
    (allowed : Feature.array ∈ features)
    (complete : Completes features demand tokens (.list exprs)) :
    Completes features (demand.and (.low (.array exprs)))
      (.symbol .leftBracket :: (tokens ++ [.symbol .rightBracket]))
      (.operand (.array exprs)) := by
  intro limit room feed kind rest kinds within _ _
  simp only [List.cons_append, List.append_assoc, List.nil_append] at kinds
  have current := Feed.current_of_kinds kinds
  unfold Yields
  rw [operand_of_noSign (by rw [current]; rfl), primary, peek_bind, current]
  simp only [if_pos allowed]
  refine (yields_advance kinds (by simp)).pass fun afterOpen openKinds => ?_
  have innerWithin : afterOpen.kinds.length ≤ limit := by
    rw [kinds, List.length_cons] at within
    rw [openKinds]
    omega
  exact (complete (.inr rfl) openKinds innerWithin).bind
    fun _ afterKinds => yields_bounded afterKinds

/-! ## Places -/

theorem completes_name (name : String) :
    Completes features .nothing [.identifier name] (.place (.name name)) := by
  intro limit room feed kind rest final result goesOn kinds within noCall continues
  refine Yields.of_iff ?_ (show goesOn ↔ True ∧ goesOn by simp)
  refine (yields_identifier kinds (by simp)).pass fun afterName nameKinds => ?_
  unfold Yields
  rw [peek_bind, Feed.current_of_kinds nameKinds, if_neg (fun opened => noCall opened.1)]
  apply continues _ afterName nameKinds
  rw [kinds] at within
  exact Nat.le_trans (Nat.le_add_right _ 1) within

theorem completes_call {tokens : List TokenKind} {arguments : List Expr} (name : String)
    (allowed : Feature.function ∈ features)
    (complete : Completes features demand tokens (.list arguments)) :
    Completes features (demand.and (.low (.call name arguments)))
      (.identifier name :: .symbol .leftParen :: (tokens ++ [.symbol .rightParen]))
      (.place (.call name arguments)) := by
  intro limit room feed kind rest final result goesOn kinds within noCall continues
  simp only [List.cons_append, List.append_assoc, List.nil_append] at kinds
  have restWithin : (tokens ++ .symbol .rightParen :: kind :: rest).length + 2 ≤ limit := by
    rw [kinds] at within
    exact within
  refine Yields.of_iff ?_ and_assoc.symm
  refine (yields_identifier kinds (by simp)).pass fun afterName nameKinds => ?_
  unfold Yields
  rw [peek_bind, if_pos ⟨Feed.current_of_kinds nameKinds, allowed⟩]
  refine (yields_advance nameKinds (by simp)).pass fun afterOpen openKinds => ?_
  refine (complete (.inl rfl) openKinds (by rw [openKinds]; omega)).bind
    fun afterArguments argumentKinds => ?_
  refine (yields_bounded argumentKinds).bind fun afterCall callKinds => ?_
  apply continues _ afterCall callKinds
  simp only [List.length_append, List.length_cons] at restWithin ⊢
  omega

theorem completes_index {baseTokens offsetTokens : List TokenKind} {base offset : Expr}
    {baseDemand offsetDemand : Demand} (allowed : Feature.array ∈ features)
    (baseComplete : Completes features baseDemand baseTokens (.place base))
    (offsetComplete : Completes features offsetDemand offsetTokens (.expression 1 offset)) :
    Completes features (baseDemand.and (offsetDemand.and (.low (.index base offset))))
      (baseTokens ++ .symbol .leftBracket :: (offsetTokens ++ [.symbol .rightBracket]))
      (.place (.index base offset)) := by
  intro limit room feed kind rest final result goesOn kinds within noCall continues
  simp only [List.cons_append, List.append_assoc, List.nil_append] at kinds
  refine (baseComplete kinds within (by decide) ?_).of_iff
    (and_assoc.trans (and_congr_right fun _ => and_assoc)).symm
  intro count after afterKinds enough
  cases count with
  | zero => cases enough
  | succ count =>
      have offsetWithin :
          (offsetTokens ++ .symbol .rightBracket :: kind :: rest).length ≤ limit := by
        rw [kinds] at within
        simp only [List.length_append, List.length_cons] at within ⊢
        omega
      unfold Yields indexes
      rw [peek_bind, if_pos ⟨Feed.current_of_kinds afterKinds, allowed⟩]
      refine (yields_advance afterKinds (by simp)).pass fun afterOpen openKinds => ?_
      refine (offsetComplete.yields_expression openKinds
        (by rw [openKinds]; exact offsetWithin) (by decide)).bind
          fun afterOffset offsetKinds => ?_
      refine (yields_expect offsetKinds (by simp)).pass fun afterClose closeKinds => ?_
      refine (yields_bounded closeKinds).bind fun afterIndexed indexedKinds => ?_
      apply continues count afterIndexed indexedKinds
      simp only [List.length_append, List.length_cons] at enough ⊢
      omega

/-! ## Comma lists -/

theorem endsExpression_close {close : Symbol}
    (closes : close = .rightParen ∨ close = .rightBracket) :
    EndsExpression (.symbol close) := by
  rcases closes with rfl | rfl <;> decide

theorem completes_empty : Completes features .nothing [] (.list []) := by
  intro limit room feed close kind rest _ kinds _
  unfold Yields listUpTo
  rw [peek_bind, if_pos (Feed.current_of_kinds kinds)]
  exact (yields_advance kinds (by simp)).pass fun _ => .ofPure

theorem completes_nonempty {tokens : List TokenKind} {exprs : List Expr}
    (derived : Derives features tokens (.items exprs))
    (complete : Completes features demand tokens (.items exprs)) :
    Completes features demand tokens (.list exprs) := by
  intro limit room feed close kind rest closes kinds within
  obtain ⟨first, head, starts⟩ := derived.startsAs
  have current := Feed.current_of_head kinds head
  have notClosed : feed.current.kind ≠ .symbol close := by
    rw [current]
    rintro rfl
    rcases closes with rfl | rfl <;> rcases starts with starts | starts <;> cases starts
  unfold Yields listUpTo
  rw [peek_bind, if_neg notClosed]
  refine (complete closes kinds within within).close fun afterItems itemKinds => ?_
  exact (yields_expect itemKinds (by simp)).pass fun _ => .ofPure

theorem completes_one {tokens : List TokenKind} {expr : Expr}
    (complete : Completes features demand tokens (.expression 1 expr)) :
    Completes features demand tokens (.items [expr]) := by
  intro limit room count feed close rest closes kinds within enough
  cases count with
  | zero =>
      have := one_le_length_kinds feed
      omega
  | succ count =>
      refine (complete.yields_expression kinds within (endsExpression_close closes)).close
        fun afterFirst firstKinds => ?_
      have noComma : ¬TokenKind.symbol close = .symbol .comma := by
        rcases closes with rfl | rfl <;> decide
      unfold Yields
      rw [peek_bind, Feed.current_of_kinds firstKinds, if_neg noComma]
      exact Yields.ofPure firstKinds

theorem completes_more {firstTokens restTokens : List TokenKind} {expr : Expr}
    {exprs : List Expr} {firstDemand restDemand : Demand}
    (firstComplete : Completes features firstDemand firstTokens (.expression 1 expr))
    (restComplete : Completes features restDemand restTokens (.items exprs)) :
    Completes features (firstDemand.and restDemand)
      (firstTokens ++ .symbol .comma :: restTokens) (.items (expr :: exprs)) := by
  intro limit room count feed close rest closes kinds within enough
  cases count with
  | zero =>
      have := one_le_length_kinds feed
      omega
  | succ count =>
      rw [List.append_assoc, List.cons_append] at kinds
      refine (firstComplete.yields_expression kinds within (by decide)).bind
        fun afterFirst firstKinds => ?_
      unfold Yields
      rw [peek_bind, if_pos (Feed.current_of_kinds firstKinds)]
      refine (yields_advance firstKinds (by simp)).pass fun afterComma commaKinds => ?_
      have shorter : afterComma.kinds.length + 1 ≤ feed.kinds.length := by
        rw [commaKinds, kinds]
        simp only [List.length_append, List.length_cons]
        omega
      exact (restComplete closes commaKinds (by omega) (by omega)).close
        fun afterRest restKinds => .ofPure restKinds

/-- The parser completes every derivation, in the rooms that it fits in.  These have
room for the nesting of the tree: nothing saves the parentheses that its levels
force. -/
theorem exists_completes {tokens : List TokenKind} {form : ExprForm}
    (derived : Derives features tokens form) :
    ∃ demand, Completes features demand tokens form ∧ demand.Covers (leastDemand form) := by
  induction derived with
  | @ofOperand _ expr operand complete =>
      obtain ⟨_, complete, covers⟩ := complete
      refine ⟨_, completes_ofOperand operand complete, ?_⟩
      rintro (_ | room) fits
      · exact fits.elim
      · obtain ⟨nests, low⟩ := covers fits
        exact ⟨Nat.sub_le_iff_le_add.mp nests, low⟩
  | @ofTighter _ level expr _ _ complete =>
      obtain ⟨_, complete, covers⟩ := complete
      refine ⟨_, complete.loosen (Nat.le_succ level), fun room fits => ?_⟩
      obtain ⟨nests, low⟩ := covers fits
      have looser := expr.enclosure_le_enclosure (Nat.le_succ level)
      exact ⟨Nat.le_trans (Nat.add_le_add_left looser _) nests, low⟩
  | @binary _ _ left right operator _ _ leftComplete rightComplete =>
      obtain ⟨_, leftComplete, leftCovers⟩ := leftComplete
      obtain ⟨_, rightComplete, rightCovers⟩ := rightComplete
      refine ⟨_, completes_binary leftComplete rightComplete, ?_⟩
      rintro (_ | room) ⟨leftFits, rightFits, low⟩
      · exact rightFits.elim
      · have free : (Expr.binary operator left right).enclosure operator.level = 0 :=
          Expr.enclosure_of_le (Nat.le_refl _)
        refine ⟨?_, low⟩
        rw [free, Nat.add_zero, Expr.nesting]
        exact Nat.max_le.mpr ⟨(leftCovers leftFits).1, Nat.succ_le_succ (rightCovers rightFits).1⟩
  | @negation _ expr _ complete =>
      obtain ⟨_, complete, covers⟩ := complete
      refine ⟨_, completes_negation complete, ?_⟩
      rintro (_ | room) ⟨fits, low⟩
      · exact fits.elim
      · have free : (Expr.unary .not expr).enclosure notLevel = 0 :=
          Expr.enclosure_of_le (Nat.le_refl _)
        refine ⟨?_, low⟩
        rw [free, Nat.add_zero, Expr.nesting]
        exact Nat.succ_le_succ (covers fits).1
  | @sign _ expr operator isSign _ complete =>
      obtain ⟨_, complete, covers⟩ := complete
      refine ⟨_, completes_sign isSign complete, ?_⟩
      rintro (_ | room) ⟨fits, low⟩
      · exact fits.elim
      · have isOperand : (Expr.unary operator expr).level = operandLevel := by
          cases operator with
          | not => contradiction
          | negate | plus => rfl
        refine ⟨?_, low⟩
        rw [Expr.enclosure_of_le (Nat.le_of_eq isOperand.symm), Expr.nesting,
          UnaryOperator.level_of_sign isSign]
        exact Nat.sub_le_iff_le_add.mp (covers fits).1
  | integer value =>
      have low : 1 ≤ maxNesting := by decide
      exact ⟨_, completes_integer value, fun _ _ => ⟨Nat.zero_le _, low⟩⟩
  | @ofPlace _ expr place complete =>
      obtain ⟨_, complete, covers⟩ := complete
      refine ⟨_, completes_ofPlace place complete, fun room fits => ?_⟩
      obtain ⟨nests, low⟩ := covers fits
      refine ⟨?_, low⟩
      rw [Expr.enclosure_of_le (Nat.le_of_eq place.level_of_place.symm)]
      exact nests
  | @parentheses _ expr _ complete =>
      obtain ⟨_, complete, covers⟩ := complete
      refine ⟨_, completes_parentheses complete, fun room fits => ?_⟩
      obtain ⟨nests, low⟩ := covers fits
      have one := expr.enclosure_le_one operandLevel
      exact ⟨by omega, low⟩
  | array allowed _ complete =>
      obtain ⟨_, complete, covers⟩ := complete
      exact ⟨_, completes_array allowed complete, fun room fits => ⟨(covers fits.1).1, fits.2⟩⟩
  | name name =>
      have low : 1 ≤ maxNesting := by decide
      exact ⟨_, completes_name name, fun _ _ => ⟨Nat.zero_le _, low⟩⟩
  | call name allowed _ complete =>
      obtain ⟨_, complete, covers⟩ := complete
      exact ⟨_, completes_call name allowed complete, fun room fits => ⟨(covers fits.1).1, fits.2⟩⟩
  | @index _ _ base offset allowed _ _ baseComplete offsetComplete =>
      obtain ⟨_, baseComplete, baseCovers⟩ := baseComplete
      obtain ⟨_, offsetComplete, offsetCovers⟩ := offsetComplete
      refine ⟨_, completes_index allowed baseComplete offsetComplete, ?_⟩
      rintro room ⟨baseFits, offsetFits, low⟩
      refine ⟨?_, low⟩
      have baseNests := (baseCovers baseFits).1
      have offsetNests := (offsetCovers offsetFits).1
      rw [Expr.nesting]
      omega
  | empty => exact ⟨_, completes_empty, fun _ _ => ⟨Nat.zero_le _, Nat.zero_le _⟩⟩
  | nonempty found complete =>
      obtain ⟨_, complete, covers⟩ := complete
      exact ⟨_, completes_nonempty found complete, covers⟩
  | one _ complete =>
      obtain ⟨_, complete, covers⟩ := complete
      refine ⟨_, completes_one complete, fun room fits => ?_⟩
      obtain ⟨nests, low⟩ := covers fits
      exact ⟨Nat.max_le.mpr ⟨Nat.le_of_add_right_le nests, Nat.zero_le _⟩,
        Nat.max_le.mpr ⟨low, Nat.zero_le _⟩⟩
  | more _ _ firstComplete restComplete =>
      obtain ⟨_, firstComplete, firstCovers⟩ := firstComplete
      obtain ⟨_, restComplete, restCovers⟩ := restComplete
      refine ⟨_, completes_more firstComplete restComplete, fun room fits => ?_⟩
      obtain ⟨firstNests, firstLow⟩ := firstCovers fits.1
      obtain ⟨restNests, restLow⟩ := restCovers fits.2
      exact ⟨Nat.max_le.mpr ⟨Nat.le_of_add_right_le firstNests, restNests⟩,
        Nat.max_le.mpr ⟨firstLow, restLow⟩⟩

end Forms

end Parser

end Scriptlet
