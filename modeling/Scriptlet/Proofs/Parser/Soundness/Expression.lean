import Scriptlet.Proofs.Grammar.Expression
import Scriptlet.Proofs.Parser.Steps

/-!
Contract: every expression that the parser accepts is derived from the tokens it
took.

Owns one soundness lemma for each parser of expressions, given the soundness of
the parsers it nests, and their closure by induction on `room`.

The loops of the parser count down from a limit.  They are sound only because
the limit is at least the number of tokens left, and every turn takes a token.
-/

namespace Scriptlet

namespace Parser

open ExprForm

variable {α : Type}

/-- Every success on a feed within the limit takes tokens that derive the
result. -/
def Sound (limit : Nat) (parser : Parser Feed α) (derived : List TokenKind → α → Prop) : Prop :=
  ∀ ⦃feed final : Feed⦄ ⦃result : α⦄, feed.kinds.length ≤ limit →
    parser feed = .ok (result, final) →
    ∃ tokens, feed.kinds = tokens ++ final.kinds ∧ derived tokens result

/-- The token is no binary operator of at least level `least`. -/
def Stops (least : Nat) (kind : TokenKind) : Prop :=
  ∀ operator, BinaryOperator.ofToken? kind = some operator → operator.level < least

/-- As `Sound` for expressions of level `least`, after which no operator of that
level stands. -/
def SoundAt (grammar : Grammar) (least : Nat) (parser : Parser Feed Expr) : Prop :=
  ∀ ⦃feed final : Feed⦄ ⦃expr : Expr⦄, feed.kinds.length ≤ grammar.limit →
    parser feed = .ok (expr, final) →
    ∃ tokens, feed.kinds = tokens ++ final.kinds ∧
      Derives grammar.features tokens (.expression (max 1 least) expr) ∧
      Stops least final.current.kind

theorem sound_tooDeep (limit : Nat) (derived : List TokenKind → α → Prop) :
    Sound limit tooDeep derived :=
  fun _ _ _ _ success => absurd success tooDeep_ne_ok

theorem one_le_length_kinds (feed : Feed) : 1 ≤ feed.kinds.length := by
  simp [Feed.kinds]

/-- What is left after some tokens were taken is shorter. -/
theorem length_kinds_of_take {feed final : Feed} {tokens : List TokenKind}
    (taken : feed.kinds = tokens ++ final.kinds) :
    feed.kinds.length = tokens.length + final.kinds.length := by
  rw [taken, List.length_append]

section Pieces

variable {grammar : Grammar} {expression : Parser Feed Expr}

/-! ## Comma lists, places and operands -/

theorem items_sound
    (inner : Sound grammar.limit expression
      fun tokens expr => Derives grammar.features tokens (.expression 1 expr)) :
    ∀ (count : Nat) ⦃feed final : Feed⦄ ⦃exprs : List Expr⦄, feed.kinds.length ≤ count →
      feed.kinds.length ≤ grammar.limit → items expression count feed = .ok (exprs, final) →
      ∃ tokens, feed.kinds = tokens ++ final.kinds ∧
        Derives grammar.features tokens (.items exprs) := by
  intro count
  induction count with
  | zero =>
      intro feed final exprs enough
      have := one_le_length_kinds feed
      omega
  | succ count inductionHypothesis =>
      intro feed final exprs enough within success
      simp only [items] at success
      obtain ⟨expr, afterFirst, parsed, continued⟩ := bind_eq_ok.mp success
      obtain ⟨firstTokens, taken, firstDerived⟩ := inner within parsed
      have shorter := length_kinds_of_take taken
      rw [peek_bind, if_apply] at continued
      split at continued
      · next comma =>
          obtain ⟨_, afterComma, advanced, continued⟩ := bind_eq_ok.mp continued
          obtain ⟨rest, _, parsedRest, returned⟩ := bind_eq_ok.mp continued
          obtain ⟨rfl, rfl⟩ := pure_eq_ok.mp returned
          have passed := advance_eq_ok advanced
          have commaShorter : afterFirst.kinds.length = afterComma.kinds.length + 1 := by
            rw [passed, List.length_cons]
          obtain ⟨restTokens, takenRest, restDerived⟩ :=
            inductionHypothesis (by omega) (by omega) parsedRest
          refine ⟨_, ?_, .more firstDerived restDerived⟩
          rw [taken, passed, comma, takenRest, List.append_assoc, List.cons_append]
      · obtain ⟨rfl, rfl⟩ := pure_eq_ok.mp continued
        exact ⟨firstTokens, taken, .one firstDerived⟩

theorem listUpTo_sound
    (inner : Sound grammar.limit expression
      fun tokens expr => Derives grammar.features tokens (.expression 1 expr))
    (close : Symbol) :
    Sound grammar.limit (listUpTo grammar close expression) fun tokens exprs =>
      ∃ listTokens, tokens = listTokens ++ [.symbol close] ∧
        Derives grammar.features listTokens (.list exprs) := by
  intro feed final exprs within success
  rw [listUpTo, peek_bind, if_apply] at success
  split at success
  · next closed =>
      obtain ⟨_, _, advanced, returned⟩ := bind_eq_ok.mp success
      obtain ⟨rfl, rfl⟩ := pure_eq_ok.mp returned
      refine ⟨[.symbol close], ?_, [], rfl, .empty⟩
      rw [advance_eq_ok advanced, closed]
      rfl
  · obtain ⟨found, afterItems, parsed, continued⟩ := bind_eq_ok.mp success
    obtain ⟨_, _, expected, returned⟩ := bind_eq_ok.mp continued
    obtain ⟨rfl, rfl⟩ := pure_eq_ok.mp returned
    obtain ⟨tokens, taken, derived⟩ := items_sound inner _ within within parsed
    refine ⟨tokens ++ [.symbol close], ?_, tokens, rfl, .nonempty derived⟩
    rw [taken, expect_eq_ok expected, List.append_assoc]
    rfl

/-- The index loop extends the derivation of the place before it. -/
theorem indexes_sound
    (inner : Sound grammar.limit expression
      fun tokens expr => Derives grammar.features tokens (.expression 1 expr)) :
    ∀ (count : Nat) ⦃feed final : Feed⦄ ⦃base place : Expr⦄ ⦃baseTokens : List TokenKind⦄,
      Derives grammar.features baseTokens (.place base) →
      feed.kinds.length ≤ grammar.limit →
      indexes grammar expression count base feed = .ok (place, final) →
      ∃ tokens, feed.kinds = tokens ++ final.kinds ∧
        Derives grammar.features (baseTokens ++ tokens) (.place place) := by
  intro count
  induction count with
  | zero =>
      intro feed final base place baseTokens derived _ success
      obtain ⟨rfl, rfl⟩ := pure_eq_ok.mp success
      exact ⟨[], rfl, by simpa using derived⟩
  | succ count inductionHypothesis =>
      intro feed final base place baseTokens derived within success
      rw [indexes, peek_bind, if_apply] at success
      split at success
      · next opened =>
          obtain ⟨_, afterOpen, advanced, continued⟩ := bind_eq_ok.mp success
          obtain ⟨offset, afterOffset, parsed, continued⟩ := bind_eq_ok.mp continued
          obtain ⟨_, afterClose, expected, continued⟩ := bind_eq_ok.mp continued
          obtain ⟨indexed, _, accepted, continued⟩ := bind_eq_ok.mp continued
          obtain ⟨rfl, rfl⟩ := bounded_eq_ok accepted
          have passed := advance_eq_ok advanced
          have closed := expect_eq_ok expected
          have openShorter : feed.kinds.length = afterOpen.kinds.length + 1 := by
            rw [passed, List.length_cons]
          obtain ⟨offsetTokens, taken, offsetDerived⟩ := inner (by omega) parsed
          have shorter := length_kinds_of_take taken
          have closeShorter : afterOffset.kinds.length = afterClose.kinds.length + 1 := by
            rw [closed, List.length_cons]
          obtain ⟨tokens, takenRest, restDerived⟩ :=
            inductionHypothesis (.index opened.2 derived offsetDerived) (by omega) continued
          refine ⟨.symbol .leftBracket :: (offsetTokens ++ .symbol .rightBracket :: tokens),
            ?_, by simpa using restDerived⟩
          rw [passed, opened.1, taken, closed, takenRest]
          simp
      · obtain ⟨rfl, rfl⟩ := pure_eq_ok.mp success
        exact ⟨[], rfl, by simpa using derived⟩

theorem place_sound
    (inner : Sound grammar.limit expression
      fun tokens expr => Derives grammar.features tokens (.expression 1 expr)) :
    Sound grammar.limit (place grammar expression)
      fun tokens expr => Derives grammar.features tokens (.place expr) := by
  intro feed final expr within success
  obtain ⟨name, afterName, named, continued⟩ := bind_eq_ok.mp success
  have nameTaken := identifier_eq_ok named
  have nameShorter : feed.kinds.length = afterName.kinds.length + 1 := by
    rw [nameTaken, List.length_cons]
  rw [peek_bind, if_apply] at continued
  split at continued
  · next opened =>
      obtain ⟨_, afterOpen, advanced, continued⟩ := bind_eq_ok.mp continued
      obtain ⟨arguments, afterArguments, parsed, continued⟩ := bind_eq_ok.mp continued
      obtain ⟨call, _, accepted, continued⟩ := bind_eq_ok.mp continued
      obtain ⟨rfl, rfl⟩ := bounded_eq_ok accepted
      have passed := advance_eq_ok advanced
      have openShorter : afterName.kinds.length = afterOpen.kinds.length + 1 := by
        rw [passed, List.length_cons]
      obtain ⟨_, taken, listTokens, rfl, listDerived⟩ :=
        listUpTo_sound inner .rightParen (by omega) parsed
      have shorter := length_kinds_of_take taken
      obtain ⟨tokens, takenRest, derived⟩ :=
        indexes_sound inner _ (.call name opened.2 listDerived) (by omega) continued
      refine ⟨_, ?_, derived⟩
      rw [nameTaken, passed, opened.1, taken, takenRest]
      simp
  · obtain ⟨tokens, taken, derived⟩ :=
      indexes_sound inner _ (.name name) (by omega) continued
    refine ⟨_, ?_, derived⟩
    rw [nameTaken, taken]
    simp

theorem primary_sound
    (inner : Sound grammar.limit expression
      fun tokens expr => Derives grammar.features tokens (.expression 1 expr)) :
    Sound grammar.limit (primary grammar expression)
      fun tokens expr => Derives grammar.features tokens (.operand expr) := by
  intro feed final expr within success
  rw [primary, peek_bind] at success
  cases found : feed.current.kind with
  | integer value =>
      rw [found] at success
      obtain ⟨_, _, advanced, returned⟩ := bind_eq_ok.mp success
      obtain ⟨rfl, rfl⟩ := pure_eq_ok.mp returned
      refine ⟨[.integer value], ?_, .integer value⟩
      rw [advance_eq_ok advanced, found]
      rfl
  | identifier name =>
      rw [found] at success
      obtain ⟨tokens, taken, derived⟩ := place_sound inner within success
      exact ⟨tokens, taken, .ofPlace derived⟩
  | symbol symbol =>
      rw [found] at success
      cases symbol with
      | leftParen =>
          obtain ⟨_, afterOpen, advanced, continued⟩ := bind_eq_ok.mp success
          obtain ⟨_, _, parsed, continued⟩ := bind_eq_ok.mp continued
          obtain ⟨_, _, expected, returned⟩ := bind_eq_ok.mp continued
          obtain ⟨rfl, rfl⟩ := pure_eq_ok.mp returned
          have passed := advance_eq_ok advanced
          have openShorter : feed.kinds.length = afterOpen.kinds.length + 1 := by
            rw [passed, List.length_cons]
          obtain ⟨tokens, taken, derived⟩ := inner (by omega) parsed
          refine ⟨_, ?_, .parentheses derived⟩
          rw [passed, found, taken, expect_eq_ok expected]
          simp
      | leftBracket =>
          simp only [if_apply] at success
          split at success
          · next allowed =>
              obtain ⟨_, afterOpen, advanced, continued⟩ := bind_eq_ok.mp success
              obtain ⟨_, _, parsed, accepted⟩ := bind_eq_ok.mp continued
              obtain ⟨rfl, rfl⟩ := bounded_eq_ok accepted
              have passed := advance_eq_ok advanced
              have openShorter : feed.kinds.length = afterOpen.kinds.length + 1 := by
                rw [passed, List.length_cons]
              obtain ⟨_, taken, listTokens, rfl, derived⟩ :=
                listUpTo_sound inner .rightBracket (by omega) parsed
              refine ⟨_, ?_, .array allowed derived⟩
              rw [passed, found, taken]
              simp
          · exact absurd success unexpected_ne_ok
      | _ => exact absurd success unexpected_ne_ok
  | _ =>
      rw [found] at success
      exact absurd success unexpected_ne_ok

theorem signed_sound {underSign plain : Parser Feed Expr}
    (under : Sound grammar.limit underSign
      fun tokens expr => Derives grammar.features tokens (.operand expr))
    (without : Sound grammar.limit plain
      fun tokens expr => Derives grammar.features tokens (.operand expr)) :
    Sound grammar.limit (signed underSign plain)
      fun tokens expr => Derives grammar.features tokens (.operand expr) := by
  intro feed final expr within success
  rw [signed, peek_bind] at success
  cases found : UnaryOperator.ofSign? feed.current.kind with
  | some operator =>
      rw [found] at success
      obtain ⟨_, afterSign, advanced, continued⟩ := bind_eq_ok.mp success
      obtain ⟨_, _, parsed, accepted⟩ := bind_eq_ok.mp continued
      obtain ⟨rfl, rfl⟩ := bounded_eq_ok accepted
      obtain ⟨isToken, isSign⟩ := UnaryOperator.eq_token_of_ofSign? found
      have passed := advance_eq_ok advanced
      have signShorter : feed.kinds.length = afterSign.kinds.length + 1 := by
        rw [passed, List.length_cons]
      obtain ⟨tokens, taken, derived⟩ := under (by omega) parsed
      refine ⟨operator.token :: tokens, ?_, .sign isSign derived⟩
      rw [passed, isToken, taken, List.cons_append]
  | none =>
      rw [found] at success
      exact without within success

/-! ## Chains of binary operators -/

/-- The operator loop extends the derivation of the operand before it.  What
carries the loop is that no operator after `left` binds tighter than `level`,
the level at which `left` is derived. -/
theorem chain_sound {operandAt : Nat → Parser Feed Expr} {least : Nat}
    (inner : ∀ level, level ≤ operandLevel → SoundAt grammar level (operandAt level)) :
    ∀ (count : Nat) ⦃feed final : Feed⦄ ⦃left expr : Expr⦄ ⦃level : Nat⦄
      ⦃leftTokens : List TokenKind⦄, feed.kinds.length ≤ count →
      feed.kinds.length ≤ grammar.limit → max 1 least ≤ level →
      Derives grammar.features leftTokens (.expression level left) →
      Stops (level + 1) feed.current.kind →
      chain least operandAt count left feed = .ok (expr, final) →
      ∃ tokens, feed.kinds = tokens ++ final.kinds ∧
        Derives grammar.features (leftTokens ++ tokens) (.expression (max 1 least) expr) ∧
        Stops least final.current.kind := by
  intro count
  induction count with
  | zero =>
      intro feed final left expr level leftTokens enough
      have := one_le_length_kinds feed
      omega
  | succ count inductionHypothesis =>
      intro feed final left expr level leftTokens enough within above derived stops success
      have loosened := derived.loosen (Nat.le_max_left 1 least) above
      rw [chain, peek_bind] at success
      cases found : BinaryOperator.ofToken? feed.current.kind with
      | none =>
          rw [found] at success
          obtain ⟨rfl, rfl⟩ := pure_eq_ok.mp success
          refine ⟨[], rfl, by simpa using loosened, ?_⟩
          intro operator isOperator
          rw [found] at isOperator
          cases isOperator
      | some operator =>
          rw [found] at success
          simp only [if_apply] at success
          split at success
          · next looser =>
              obtain ⟨rfl, rfl⟩ := pure_eq_ok.mp success
              refine ⟨[], rfl, by simpa using loosened, ?_⟩
              intro other isOther
              rw [found] at isOther
              cases isOther
              exact looser
          · next notLooser =>
              obtain ⟨_, afterOperator, advanced, continued⟩ := bind_eq_ok.mp success
              obtain ⟨right, afterRight, parsed, continued⟩ := bind_eq_ok.mp continued
              obtain ⟨joined, _, accepted, continued⟩ := bind_eq_ok.mp continued
              obtain ⟨rfl, rfl⟩ := bounded_eq_ok accepted
              have passed := advance_eq_ok advanced
              have operatorShorter :
                  feed.kinds.length = afterOperator.kinds.length + 1 := by
                rw [passed, List.length_cons]
              obtain ⟨rightTokens, taken, rightDerived, rightStops⟩ :=
                inner (operator.level + 1) operator.level_lt_operandLevel (by omega) parsed
              have shorter := length_kinds_of_take taken
              have positive := operator.one_le_level
              have below : operator.level ≤ level :=
                Nat.le_of_lt_succ (stops operator found)
              rw [Nat.max_eq_right (by omega)] at rightDerived
              have joinedDerived :=
                Derives.binary operator (derived.loosen positive below) rightDerived
              obtain ⟨tokens, takenRest, restDerived, restStops⟩ :=
                inductionHypothesis (by omega) (by omega) (by omega) joinedDerived
                  rightStops continued
              refine ⟨operator.token :: (rightTokens ++ tokens), ?_,
                by simpa using restDerived, restStops⟩
              rw [passed, BinaryOperator.eq_token_of_ofToken? found, taken, takenRest]
              simp

theorem climb_sound {operand : Parser Feed Expr} {operandAt : Nat → Parser Feed Expr} {least : Nat}
    (first : Sound grammar.limit operand
      fun tokens expr => Derives grammar.features tokens (.operand expr))
    (inner : ∀ level, level ≤ operandLevel → SoundAt grammar level (operandAt level))
    (below : least ≤ operandLevel) :
    SoundAt grammar least (climb grammar operand operandAt least) := by
  intro feed final expr within success
  rw [climb, peek_bind, if_apply] at success
  split at success
  · next negation =>
      obtain ⟨isNot, allowed⟩ := negation
      obtain ⟨_, afterNot, advanced, continued⟩ := bind_eq_ok.mp success
      obtain ⟨negated, afterNegated, parsed, continued⟩ := bind_eq_ok.mp continued
      obtain ⟨_, _, accepted, continued⟩ := bind_eq_ok.mp continued
      obtain ⟨rfl, rfl⟩ := bounded_eq_ok accepted
      have passed := advance_eq_ok advanced
      have notShorter : feed.kinds.length = afterNot.kinds.length + 1 := by
        rw [passed, List.length_cons]
      obtain ⟨negatedTokens, taken, derived, stops⟩ :=
        inner notLevel (by decide) (by omega) parsed
      have shorter := length_kinds_of_take taken
      have aboveLeast : max 1 least ≤ notLevel := Nat.max_le.mpr ⟨by decide, allowed⟩
      have stopsAbove : Stops (notLevel + 1) afterNegated.current.kind :=
        fun operator found => Nat.lt_succ_of_lt (stops operator found)
      obtain ⟨tokens, takenRest, restDerived, restStops⟩ :=
        chain_sound inner _ (by omega) (by omega) aboveLeast (.negation derived)
          stopsAbove continued
      refine ⟨_, ?_, restDerived, restStops⟩
      rw [passed, isNot, taken, takenRest]
      simp
  · obtain ⟨operandExpr, afterOperand, parsed, continued⟩ := bind_eq_ok.mp success
    obtain ⟨operandTokens, taken, derived⟩ := first within parsed
    have shorter := length_kinds_of_take taken
    have aboveLeast : max 1 least ≤ operandLevel := Nat.max_le.mpr ⟨by decide, below⟩
    have stops : Stops (operandLevel + 1) afterOperand.current.kind :=
      fun operator _ => Nat.lt_succ_of_lt operator.level_lt_operandLevel
    obtain ⟨tokens, takenRest, restDerived, restStops⟩ :=
      chain_sound inner _ (by omega) (by omega) aboveLeast (.ofOperand derived) stops continued
    refine ⟨_, ?_, restDerived, restStops⟩
    rw [taken, takenRest, List.append_assoc]

end Pieces

/-! ## Closure over `room` -/

theorem SoundAt.sound {grammar : Grammar} {parser : Parser Feed Expr}
    (sound : SoundAt grammar 0 parser) :
    Sound grammar.limit parser
      fun tokens expr => Derives grammar.features tokens (.expression 1 expr) := by
  intro feed final expr within success
  obtain ⟨tokens, taken, derived, _⟩ := sound within success
  exact ⟨tokens, taken, derived⟩

/-- Expressions of every level and operands are sound in every room. -/
theorem expressionAt_operand_sound (grammar : Grammar) (room : Nat) :
    (∀ least, least ≤ operandLevel → SoundAt grammar least (expressionAt grammar room least)) ∧
      Sound grammar.limit (operand grammar room)
        fun tokens expr => Derives grammar.features tokens (.operand expr) := by
  induction room with
  | zero =>
      have expressions : ∀ least, least ≤ operandLevel →
          SoundAt grammar least (expressionAt grammar 0 least) :=
        fun _ _ _ _ _ _ success => absurd success tooDeep_ne_ok
      exact ⟨expressions, signed_sound (sound_tooDeep _ _)
        (primary_sound (expressions 0 (by decide)).sound)⟩
  | succ room inductionHypothesis =>
      obtain ⟨inner, operands⟩ := inductionHypothesis
      have expressions : ∀ least, least ≤ operandLevel →
          SoundAt grammar least (expressionAt grammar (room + 1) least) := by
        intro least below
        rw [expressionAt_succ]
        exact climb_sound operands inner below
      refine ⟨expressions, ?_⟩
      rw [operand_succ]
      exact signed_sound operands (primary_sound (expressions 0 (by decide)).sound)

theorem expression_sound (grammar : Grammar) (room : Nat) :
    Sound grammar.limit (expression grammar room)
      fun tokens expr => Derives grammar.features tokens (.expression 1 expr) :=
  ((expressionAt_operand_sound grammar room).1 0 (by decide)).sound

end Parser

end Scriptlet
