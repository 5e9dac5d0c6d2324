import Scriptlet.Proofs.Parser.Feed

/-!
Contract: what the smallest parsers do to the token kinds of a feed.

Owns:
- the inversion of a successful step, for soundness;
- `Yields`, a step that succeeds if a condition holds and else meets the nesting
  limit, for completeness.

Positions play no part in either direction: they only reach error messages.
-/

namespace Scriptlet

theorem Feed.current_of_kinds {feed : Feed} {kind : TokenKind} {rest : List TokenKind}
    (kinds : feed.kinds = kind :: rest) : feed.current.kind = kind :=
  (List.cons.inj kinds).1

theorem Feed.current_of_head {feed : Feed} {first : TokenKind} {tokens rest : List TokenKind}
    (kinds : feed.kinds = tokens ++ rest) (head : tokens.head? = some first) :
    feed.current.kind = first := by
  cases tokens with
  | nil => cases head
  | cons next tokens =>
      cases head
      exact Feed.current_of_kinds kinds

namespace Parser

variable {α β : Type}

/-! ## Successful steps -/

theorem bind_eq_ok {first : Parser Feed α} {next : α → Parser Feed β} {feed final : Feed} {result : β} :
    (first >>= next) feed = .ok (result, final) ↔
      ∃ value middle, first feed = .ok (value, middle) ∧
        next value middle = .ok (result, final) := by
  change StateT.bind first next feed = _ ↔ _
  unfold StateT.bind
  cases outcome : first feed with
  | error failure => simp [bind, Except.bind]
  | ok pair =>
      obtain ⟨value, middle⟩ := pair
      simp only [bind, Except.bind, Except.ok.injEq, Prod.mk.injEq]
      constructor
      · intro success
        exact ⟨value, middle, ⟨rfl, rfl⟩, success⟩
      · rintro ⟨_, _, ⟨rfl, rfl⟩, success⟩
        exact success

theorem pure_eq_ok {value result : α} {feed final : Feed} :
    (pure value : Parser Feed α) feed = .ok (result, final) ↔ value = result ∧ feed = final := by
  change Except.ok (value, feed) = _ ↔ _
  simp

theorem peek_bind (next : TokenKind → Parser Feed α) (feed : Feed) :
    (peek >>= next) feed = next feed.current.kind feed := rfl

theorem mark_bind (next : TokenSource.Checkpoint Feed → Parser Feed α) (feed : Feed) :
    (mark >>= next) feed = next feed feed := rfl

theorem unmark_bind (next : Unit → Parser Feed α) (feed : Feed) :
    (unmark >>= next) feed = next () feed := rfl

theorem rewind_bind (kept : TokenSource.Checkpoint Feed) (next : Unit → Parser Feed α)
    (feed : Feed) : (rewind kept >>= next) feed = next () kept := rfl

theorem if_apply {condition : Prop} [Decidable condition] (first second : Parser Feed α)
    (feed : Feed) :
    (if condition then first else second) feed =
      if condition then first feed else second feed := by
  split <;> rfl

theorem advance_eq_ok {feed final : Feed} {result : Unit}
    (success : advance feed = .ok (result, final)) :
    feed.kinds = feed.current.kind :: final.kinds := by
  obtain ⟨current, later, stop⟩ := feed
  cases later with
  | nil => cases success
  | cons next later =>
      cases success
      rfl

theorem unexpected_ne_ok {expected : String} {feed final : Feed} {result : α} :
    unexpected expected feed ≠ .ok (result, final) := nofun

theorem tooDeep_ne_ok {feed final : Feed} {result : α} :
    tooDeep feed ≠ .ok (result, final) := nofun

theorem expect_eq_ok {kind : TokenKind} {feed final : Feed} {result : Unit}
    (success : expect kind feed = .ok (result, final)) :
    feed.kinds = kind :: final.kinds := by
  simp only [expect, peek_bind, if_apply] at success
  split at success
  · next found => rw [advance_eq_ok success, found]
  · exact absurd success unexpected_ne_ok

theorem identifier_eq_ok {feed final : Feed} {name : String}
    (success : identifier feed = .ok (name, final)) :
    feed.kinds = .identifier name :: final.kinds := by
  simp only [identifier, peek_bind] at success
  cases found : feed.current.kind with
  | identifier spelled =>
      rw [found] at success
      obtain ⟨_, middle, advanced, returned⟩ := bind_eq_ok.mp success
      obtain ⟨rfl, rfl⟩ := pure_eq_ok.mp returned
      rw [advance_eq_ok advanced, found]
  | _ =>
      rw [found] at success
      exact absurd success unexpected_ne_ok

theorem skipNewline_eq_ok {feed final : Feed} {result : Unit}
    (success : skipNewline feed = .ok (result, final)) :
    feed.kinds = final.kinds ∨ feed.kinds = .newline :: final.kinds := by
  simp only [skipNewline, peek_bind, if_apply] at success
  split at success
  · next found =>
      right
      rw [advance_eq_ok success, found]
  · obtain ⟨_, rfl⟩ := pure_eq_ok.mp success
    exact .inl rfl

theorem bounded_eq_ok {expr result : Expr} {feed final : Feed}
    (success : bounded expr feed = .ok (result, final)) : expr = result ∧ feed = final := by
  unfold bounded at success
  split at success
  · exact absurd success tooDeep_ne_ok
  · exact pure_eq_ok.mp success

/-! ## Steps that succeed or meet the nesting limit -/

/-- The parser gives a result and leaves a feed with the given kinds if a
condition holds, and meets the nesting limit if it does not. -/
def Yields (fits : Prop) (parser : Parser Feed α) (feed : Feed) (result : α)
    (rest : List TokenKind) : Prop :=
  fits ∧ (∃ final, parser feed = .ok (result, final) ∧ final.kinds = rest) ∨
    ¬ fits ∧ ∃ position, parser feed = .error (.tooDeep position)

section Yields

variable {fits goesOn : Prop} {parser : Parser Feed α} {first : Parser Feed α} {next : α → Parser Feed β}
  {feed : Feed} {value : α} {result : β} {middleKinds rest : List TokenKind}

theorem Yields.of_iff (yields : Yields fits parser feed value rest) {other : Prop}
    (same : fits ↔ other) : Yields other parser feed value rest :=
  propext same ▸ yields

theorem Yields.ok_of_fits (yields : Yields fits parser feed value rest) (holds : fits) :
    ∃ final, parser feed = .ok (value, final) ∧ final.kinds = rest := by
  rcases yields with ⟨_, success⟩ | ⟨fails, _⟩
  · exact success
  · exact absurd holds fails

theorem Yields.fits_of_ok (yields : Yields fits parser feed value rest) {found : α}
    {final : Feed} (success : parser feed = .ok (found, final)) : fits := by
  rcases yields with ⟨holds, _⟩ | ⟨_, position, failure⟩
  · exact holds
  · rw [failure] at success
    cases success

theorem Yields.ofPure (kinds : feed.kinds = rest) : Yields True (pure value) feed value rest :=
  .inl ⟨trivial, feed, rfl, kinds⟩

theorem yields_tooDeep (fails : ¬ fits) : Yields fits tooDeep feed value rest :=
  .inr ⟨fails, feed.current.start, rfl⟩

theorem yields_bind_of_ok {middle : Feed} (success : first feed = .ok (value, middle))
    (continues : Yields goesOn (next value) middle result rest) :
    Yields goesOn (first >>= next) feed result rest := by
  change Yields goesOn (StateT.bind first next) feed result rest
  unfold Yields StateT.bind
  rw [success]
  exact continues

theorem yields_bind_of_tooDeep {position : Nat} (fails : ¬ fits)
    (failure : first feed = .error (.tooDeep position)) :
    Yields fits (first >>= next) feed result rest := by
  change Yields fits (StateT.bind first next) feed result rest
  unfold Yields StateT.bind
  rw [failure]
  exact .inr ⟨fails, position, rfl⟩

/-- Two steps succeed if both conditions hold. -/
theorem Yields.bind (starts : Yields fits first feed value middleKinds)
    (continues : ∀ middle : Feed, middle.kinds = middleKinds →
      Yields goesOn (next value) middle result rest) :
    Yields (fits ∧ goesOn) (first >>= next) feed result rest := by
  rcases starts with ⟨holds, middle, success, kinds⟩ | ⟨fails, position, failure⟩
  · exact (yields_bind_of_ok success (continues middle kinds)).of_iff (by simp [holds])
  · exact yields_bind_of_tooDeep (fun both => fails both.1) failure

/-- A step that always succeeds leaves the condition to what comes after it. -/
theorem Yields.pass (starts : Yields True first feed value middleKinds)
    (continues : ∀ middle : Feed, middle.kinds = middleKinds →
      Yields goesOn (next value) middle result rest) :
    Yields goesOn (first >>= next) feed result rest :=
  (starts.bind continues).of_iff (by simp)

/-- What always succeeds after a step asks for nothing more. -/
theorem Yields.close (starts : Yields fits first feed value middleKinds)
    (continues : ∀ middle : Feed, middle.kinds = middleKinds →
      Yields True (next value) middle result rest) :
    Yields fits (first >>= next) feed result rest :=
  (starts.bind continues).of_iff (by simp)

end Yields

theorem yields_advance {feed : Feed} {kind : TokenKind} {rest : List TokenKind}
    (kinds : feed.kinds = kind :: rest) (more : rest ≠ []) :
    Yields True advance feed () rest := by
  obtain ⟨current, later, stop⟩ := feed
  obtain ⟨_, laterKinds⟩ := List.cons.inj kinds
  cases later with
  | nil => exact absurd laterKinds.symm more
  | cons next later => exact .inl ⟨trivial, ⟨next, later, stop⟩, rfl, laterKinds⟩

theorem yields_expect {feed : Feed} {kind : TokenKind} {rest : List TokenKind}
    (kinds : feed.kinds = kind :: rest) (more : rest ≠ []) :
    Yields True (expect kind) feed () rest := by
  unfold Yields expect
  rw [peek_bind, if_pos (Feed.current_of_kinds kinds)]
  exact yields_advance kinds more

theorem yields_identifier {feed : Feed} {name : String} {rest : List TokenKind}
    (kinds : feed.kinds = .identifier name :: rest) (more : rest ≠ []) :
    Yields True identifier feed name rest := by
  unfold Yields identifier
  rw [peek_bind, Feed.current_of_kinds kinds]
  exact (yields_advance kinds more).pass fun _ => .ofPure

theorem yields_skipNewline_absent {feed : Feed} {kind : TokenKind} {rest : List TokenKind}
    (kinds : feed.kinds = kind :: rest) (absent : kind ≠ .newline) :
    Yields True skipNewline feed () (kind :: rest) := by
  unfold Yields skipNewline
  rw [peek_bind, Feed.current_of_kinds kinds, if_neg absent]
  exact Yields.ofPure kinds

theorem yields_skipNewline_present {feed : Feed} {rest : List TokenKind}
    (kinds : feed.kinds = .newline :: rest) (more : rest ≠ []) :
    Yields True skipNewline feed () rest := by
  unfold Yields skipNewline
  rw [peek_bind, if_pos (Feed.current_of_kinds kinds)]
  exact yields_advance kinds more

theorem yields_bounded {feed : Feed} {expr : Expr} {rest : List TokenKind}
    (kinds : feed.kinds = rest) :
    Yields (expr.height ≤ maxNesting) (bounded expr) feed expr rest := by
  unfold bounded
  split
  · next high => exact yields_tooDeep (Nat.not_le.mpr high)
  · next low => exact (Yields.ofPure kinds).of_iff (iff_of_true trivial (Nat.le_of_not_lt low))

end Parser

end Scriptlet
