import Scriptlet.Proofs.Token.Run
import Scriptlet.Token.Stream

/-!
Contract: a token stream is a place in a list of tokens, with an optional mark.

Owns:
- the tokens that a stream hands out when it is asked for the next one over and
  over, failures left out, and that there is such a list for every stream;
- the place that a sequence of calls comes to, with its mark, told from what the
  calls answer;
- for every sequence of calls, the tokens that are handed out are those at the
  place, whatever was recorded, queued or failed before.

A failed read may leave characters behind, so tokens can follow it.  It hands out
nothing, and one that leaves none behind fails forever.
-/

namespace Scriptlet

/-! ## Reads that fail -/

section

variable {features : FeatureSet}

/-- A lexeme that fails is too large a literal, or takes nothing. -/
theorem readLexeme_of_error {position : Nat} {first : Char} {rest : List Char}
    {failure : LexError}
    (failed : (readLexeme features position first rest).outcome = .error failure) :
    (readLexeme features position first rest).rest.length < (first :: rest).length ∨
      (readLexeme features position first rest).taken = [] ∧
        (readLexeme features position first rest).rest = first :: rest := by
  unfold readLexeme at failed ⊢
  split
  · next later found =>
      rw [found] at failed
      cases failed
  · next notFound =>
      rw [notFound] at failed
      simp only at failed
      split
      · next isWord =>
          rw [if_pos isWord] at failed
          cases failed
      · next notWord =>
          rw [if_neg notWord] at failed
          split
          · next isDigit =>
              left
              have shorter := (List.dropWhile_suffix Char.isDigit (l := rest)).length_le
              simp only [readInteger, List.dropWhile_cons_of_pos isDigit, List.length_cons]
              omega
          · next notDigit =>
              rw [if_neg notDigit] at failed
              right
              unfold readSymbol at failed ⊢
              split
              · next found =>
                  rw [found] at failed
                  cases failed
              · exact ⟨rfl, rfl⟩

/-- A failed read leaves characters behind, or fails in the same place forever. -/
theorem scan_of_error {cursor next : Cursor} {failure : LexError}
    (scanned : scan features cursor = (.error failure, next)) :
    next.rest.length < cursor.rest.length ∨ scan features next = (.error failure, next) := by
  have bound := length_skipLayout_le cursor.afterNewline false cursor.rest cursor.position
  unfold scan at scanned
  split at scanned
  · cases scanned
  · next first rest position skipped =>
      rw [skipped] at bound
      split at scanned
      · cases scanned
      · next notNewline =>
          have starts := starts_of_skipLayout skipped notNewline
          cases outcome : (readLexeme features position first rest).outcome with
          | ok kind => simp [outcome, Except.map] at scanned
          | error other =>
              simp only [outcome, Except.map, Prod.mk.injEq, Except.error.injEq] at scanned
              obtain ⟨rfl, rfl⟩ := scanned
              rcases readLexeme_of_error outcome with shorter | ⟨nothing, same⟩
              · exact .inl (Nat.lt_of_lt_of_le shorter bound)
              · right
                rw [nothing, same]
                simp only [Text.byteLength_nil, Nat.add_zero, scan,
                  skipLayout_of_starts notNewline starts, if_neg notNewline, outcome, nothing, same]
                rfl

end

/-! ## What a stream hands out -/

namespace TokenStream

/-- The tokens that a number of requests for the next one are answered with,
failures left out. -/
def handedOut : (requests : Nat) → TokenStream → List Token
  | 0, _ => []
  | requests + 1, stream =>
      stream.next.1.toOption.toList ++ handedOut requests stream.next.2

/-- Whether some tokens are all that a stream hands out when it is asked for the
next one over and over. -/
def HandsOut (stream : TokenStream) (tokens : List Token) : Prop :=
  ∃ enough, ∀ requests, enough ≤ requests → handedOut requests stream = tokens

variable {stream left right after : TokenStream} {token : Token} {tokens : List Token}
  {failure : LexError} {cursor : Cursor}

/-- How a request for the next token is answered, and the stream after it. -/
inductive Answers (stream : TokenStream) : Except LexError Token → TokenStream → Prop where
  | queued {token : Token} {queue : List Token} (isQueue : stream.queue = token :: queue) :
      Answers stream (.ok token) ({ stream with queue }.record token)
  | exhausted (noQueue : stream.queue = []) (ended : stream.ended = true) :
      Answers stream (.error .exhausted) stream
  | failed {failure : LexError} {cursor : Cursor} (noQueue : stream.queue = [])
      (goesOn : stream.ended = false)
      (scanned : scan stream.features stream.cursor = (.error failure, cursor)) :
      Answers stream (.error failure) { stream with cursor }
  | read {token : Token} {cursor : Cursor} (noQueue : stream.queue = [])
      (goesOn : stream.ended = false)
      (scanned : scan stream.features stream.cursor = (.ok token, cursor)) :
      Answers stream (.ok token)
        ({ stream with cursor, ended := token.kind == TokenKind.endOfInput }.record token)

theorem answers_next (stream : TokenStream) : stream.Answers stream.next.1 stream.next.2 := by
  unfold next
  split
  · next token queue isQueue => exact .queued isQueue
  · next noQueue =>
      unfold readText
      by_cases ended : stream.ended = true
      · rw [if_pos ended]
        exact .exhausted noQueue ended
      · rw [if_neg ended]
        have goesOn : stream.ended = false := Bool.eq_false_iff.mpr ended
        cases scanned : scan stream.features stream.cursor with
        | mk result cursor =>
            cases result with
            | error failure => exact .failed noQueue goesOn scanned
            | ok token => exact .read noQueue goesOn scanned

/-- A token that is handed out is recorded. -/
theorem Answers.recorded_of_ok (answers : stream.Answers (.ok token) after) :
    after.recorded = stream.recorded.map (· ++ [token]) := by
  cases answers with
  | queued | read => rfl

theorem Answers.recorded_of_error (answers : stream.Answers (.error failure) after) :
    after.recorded = stream.recorded := by
  cases answers with
  | exhausted | failed => rfl

/-- Whether two streams hand out the same, apart from what they record and from
iteration. -/
structure ReadsAlike (left right : TokenStream) : Prop where
  features : left.features = right.features
  cursor : left.cursor = right.cursor
  ended : left.ended = right.ended
  queue : left.queue = right.queue

theorem ReadsAlike.next (alike : left.ReadsAlike right) :
    left.next.1 = right.next.1 ∧ left.next.2.ReadsAlike right.next.2 := by
  obtain ⟨features, cursor, ended, finished, recorded, queue⟩ := left
  obtain ⟨_, _, _, otherFinished, otherRecorded, _⟩ := right
  obtain ⟨rfl, rfl, rfl, rfl⟩ := alike
  cases queue with
  | cons token queue => exact ⟨rfl, rfl, rfl, rfl, rfl⟩
  | nil =>
      cases ended with
      | true => exact ⟨rfl, rfl, rfl, rfl, rfl⟩
      | false =>
          cases scanned : scan features cursor with
          | mk result cursor =>
              simp only [TokenStream.next, readText, scanned, Bool.false_eq_true, if_false]
              cases result with
              | error failure => exact ⟨rfl, rfl, rfl, rfl, rfl⟩
              | ok token => exact ⟨rfl, rfl, rfl, rfl, rfl⟩

theorem ReadsAlike.handedOut (alike : left.ReadsAlike right) (requests : Nat) :
    handedOut requests left = handedOut requests right := by
  induction requests generalizing left right with
  | zero => rfl
  | succ requests inductionHypothesis =>
      obtain ⟨sameAnswer, alikeAfter⟩ := alike.next
      rw [TokenStream.handedOut, TokenStream.handedOut, sameAnswer,
        inductionHypothesis alikeAfter]

theorem HandsOut.alike (hands : left.HandsOut tokens) (alike : left.ReadsAlike right) :
    right.HandsOut tokens := by
  obtain ⟨enough, handsOut⟩ := hands
  refine ⟨enough, fun requests more => ?_⟩
  rw [← alike.handedOut]
  exact handsOut requests more

/-- What a stream hands out is the answer to one request, and then what it hands
out after that. -/
theorem handsOut_iff :
    stream.HandsOut tokens ↔
      ∃ rest, tokens = stream.next.1.toOption.toList ++ rest ∧ stream.next.2.HandsOut rest := by
  constructor
  · rintro ⟨enough, handsOut⟩
    have first := handsOut (enough + 1) (Nat.le_succ enough)
    refine ⟨handedOut enough stream.next.2, first.symm, enough, fun requests more => ?_⟩
    have later := handsOut (requests + 1) (Nat.le_succ_of_le more)
    exact List.append_cancel_left (later.trans first.symm)
  · rintro ⟨rest, rfl, enough, handsOut⟩
    refine ⟨enough + 1, fun requests more => ?_⟩
    cases requests with
    | zero => exact absurd more (Nat.not_succ_le_zero enough)
    | succ requests => rw [handedOut, handsOut requests (Nat.le_of_succ_le_succ more)]

/-- A stream that a failed request does not change hands out nothing. -/
theorem handsOut_nil (stuck : stream.next = (.error failure, stream)) : stream.HandsOut [] := by
  refine ⟨0, fun requests _ => ?_⟩
  induction requests with
  | zero => rfl
  | succ requests inductionHypothesis =>
      rw [handedOut, stuck]
      exact inductionHypothesis (Nat.zero_le _)

theorem next_of_ended (noQueue : stream.queue = []) (ended : stream.ended = true) :
    stream.next = (.error .exhausted, stream) := by
  simp only [next, readText, noQueue, ended, if_true]

theorem next_of_scan_ok (noQueue : stream.queue = []) (goesOn : stream.ended = false)
    (scanned : scan stream.features stream.cursor = (.ok token, cursor)) :
    stream.next = (.ok token,
      { stream with cursor, ended := token.kind == TokenKind.endOfInput }.record token) := by
  simp [next, readText, noQueue, goesOn, scanned]

theorem next_of_scan_error (noQueue : stream.queue = []) (goesOn : stream.ended = false)
    (scanned : scan stream.features stream.cursor = (.error failure, cursor)) :
    stream.next = (.error failure, { stream with cursor }) := by
  simp [next, readText, noQueue, goesOn, scanned]

/-- There is an end to what a stream hands out. -/
theorem exists_handsOut (stream : TokenStream) : ∃ tokens, stream.HandsOut tokens := by
  induction size : stream.queue.length + stream.cursor.rest.length using Nat.strongRecOn
    generalizing stream with
  | ind size inductionHypothesis =>
      have onward : ∀ {result after}, stream.next = (result, after) →
          (∃ tokens, after.HandsOut tokens) → ∃ tokens, stream.HandsOut tokens := by
        rintro result after answered ⟨rest, hands⟩
        exact ⟨_, handsOut_iff.mpr ⟨rest, rfl, answered ▸ hands⟩⟩
      rcases answered : stream.next with ⟨result, after⟩
      have answers := stream.answers_next
      rw [answered] at answers
      cases answers with
      | @queued token queue isQueue =>
          apply onward answered
          refine inductionHypothesis (queue.length + stream.cursor.rest.length) ?_ _ rfl
          rw [← size, isQueue, List.length_cons]
          omega
      | exhausted noQueue ended => exact ⟨[], handsOut_nil answered⟩
      | @failed failure cursor noQueue goesOn scanned =>
          apply onward answered
          rcases scan_of_error scanned with shorter | stuck
          · refine inductionHypothesis (stream.queue.length + cursor.rest.length) ?_ _ rfl
            omega
          · exact ⟨[], handsOut_nil (next_of_scan_error noQueue goesOn stuck)⟩
      | @read token cursor noQueue goesOn scanned =>
          apply onward answered
          by_cases isEnd : token.kind = .endOfInput
          · have ended : (token.kind == TokenKind.endOfInput) = true := beq_iff_eq.mpr isEnd
            exact ⟨[], handsOut_nil (next_of_ended noQueue ended)⟩
          · have shorter := length_scan_lt scanned isEnd
            refine inductionHypothesis (stream.queue.length + cursor.rest.length) ?_ _ rfl
            omega

/-- Tokens that are queued are handed out first. -/
theorem HandsOut.queued (hands : stream.HandsOut tokens) (front : List Token) :
    { stream with queue := front ++ stream.queue }.HandsOut (front ++ tokens) := by
  induction front with
  | nil => exact hands
  | cons token front inductionHypothesis =>
      refine handsOut_iff.mpr ⟨front ++ tokens, rfl, ?_⟩
      exact inductionHypothesis.alike ⟨rfl, rfl, rfl, rfl⟩

end TokenStream

/-! ## Places -/

/-- What can be asked of a token stream. -/
inductive StreamCall where
  | next
  | iterate
  | mark
  | unmark
  | rewind

/-- A place in a list of tokens, with an optional mark. -/
structure MarkedPlace where
  position : Nat
  mark : Option Nat

namespace MarkedPlace

/-- The place after an answer.  A token that is handed out moves it by one; a
failure, or an iteration that is over, does not. -/
def answered (place : MarkedPlace) : Option (Except LexError Token) → MarkedPlace
  | some (.ok _) => { place with position := place.position + 1 }
  | some (.error _) | none => place

/-- The place after a call, from what the call answers. -/
def after (place : MarkedPlace) (answer : Option (Except LexError Token)) :
    StreamCall → MarkedPlace
  | .next | .iterate => place.answered answer
  | .mark => { place with mark := some place.position }
  | .unmark => { place with mark := none }
  | .rewind => ⟨place.mark.getD place.position, none⟩

end MarkedPlace

namespace TokenStream

/-- What a call answers, if anything, and the stream after it. -/
def call (stream : TokenStream) : StreamCall → Option (Except LexError Token) × TokenStream
  | .next => (some stream.next.1, stream.next.2)
  | .iterate => stream.iterate
  | .mark => (none, stream.mark)
  | .unmark => (none, stream.unmark)
  | .rewind => (none, stream.rewind)

/-- A stream and a place, both after a call. -/
def follow (reached : TokenStream × MarkedPlace) (call : StreamCall) :
    TokenStream × MarkedPlace :=
  ((reached.1.call call).2, reached.2.after (reached.1.call call).1 call)

/-- Whether a stream is at a place in some tokens: it hands out those from the place
on, and has recorded those from the mark up to the place. -/
structure At (tokens : List Token) (stream : TokenStream) (place : MarkedPlace) : Prop where
  ahead : stream.HandsOut (tokens.drop place.position)
  recorded : stream.recorded =
    place.mark.map fun mark => (tokens.drop mark).take (place.position - mark)
  marked : ∀ mark ∈ place.mark, mark ≤ place.position

variable {stream : TokenStream} {tokens : List Token} {place : MarkedPlace}

/-- A request for the next token answers with the one at the place and moves the
place, or fails and moves nothing. -/
theorem At.next (isAt : stream.At tokens place) :
    stream.next.2.At tokens (place.answered (some stream.next.1)) ∧
      ∀ token, stream.next.1 = .ok token → tokens[place.position]? = some token := by
  obtain ⟨rest, isAhead, hands⟩ := handsOut_iff.mp isAt.ahead
  have answers := stream.answers_next
  cases answered : stream.next with
  | mk result after =>
      rw [answered] at isAhead hands answers
      cases result with
      | error failure =>
          have isRest : rest = tokens.drop place.position := isAhead.symm
          refine ⟨⟨isRest ▸ hands, ?_, isAt.marked⟩, nofun⟩
          rw [answers.recorded_of_error]
          exact isAt.recorded
      | ok token =>
          have isAhead : tokens.drop place.position = token :: rest := isAhead
          have found : tokens[place.position]? = some token := by
            rw [← List.head?_drop, isAhead]
            rfl
          refine ⟨⟨?_, ?_, fun mark isMark => Nat.le_succ_of_le (isAt.marked mark isMark)⟩, ?_⟩
          · have isRest : tokens.drop (place.position + 1) = rest := by
              rw [← List.tail_drop, isAhead]
              rfl
            exact isRest ▸ hands
          · rw [answers.recorded_of_ok, isAt.recorded]
            cases isMark : place.mark with
            | none => simp [MarkedPlace.answered, isMark]
            | some mark =>
                have before := isAt.marked mark isMark
                have last : (tokens.drop mark)[place.position - mark]? = some token := by
                  rw [List.getElem?_drop, Nat.add_sub_of_le before]
                  exact found
                have longer : place.position + 1 - mark = place.position - mark + 1 := by omega
                simp only [MarkedPlace.answered, isMark, Option.map_some, longer,
                  List.take_add_one, last, Option.toList_some]
          · intro other isOther
            cases isOther
            exact found

/-- What was recorded stands between the mark and the place, so that queuing it
again is going back to the mark. -/
theorem At.rewind (isAt : stream.At tokens place) :
    stream.rewind.At tokens ⟨place.mark.getD place.position, none⟩ := by
  obtain ⟨position, mark⟩ := place
  obtain ⟨ahead, recorded, marked⟩ := isAt
  cases mark with
  | none =>
      have same : stream.rewind = stream := by
        simp only [TokenStream.rewind, recorded, Option.map_none]
      rw [same]
      exact ⟨ahead, recorded, nofun⟩
  | some mark =>
      have isSlice : stream.recorded = some ((tokens.drop mark).take (position - mark)) := recorded
      have onward : (tokens.drop mark).drop (position - mark) = tokens.drop position := by
        rw [List.drop_drop, Nat.add_sub_of_le (marked mark rfl)]
      have queued := ahead.queued ((tokens.drop mark).take (position - mark))
      simp only [← onward, List.take_append_drop] at queued
      simp only [TokenStream.rewind, isSlice]
      exact ⟨queued.alike ⟨rfl, rfl, rfl, rfl⟩, rfl, nofun⟩

/-- A call keeps a stream at its place, and the token it hands out is the one
there. -/
theorem At.follow (isAt : stream.At tokens place) (call : StreamCall) :
    (stream.call call).2.At tokens (place.after (stream.call call).1 call) ∧
      ∀ token, (stream.call call).1 = some (.ok token) →
        tokens[place.position]? = some token := by
  cases call with
  | next =>
      obtain ⟨isNext, found⟩ := isAt.next
      exact ⟨isNext, fun token answered => found token (Option.some.inj answered)⟩
  | iterate =>
      by_cases finished : stream.finished = true
      · simp only [call, iterate, finished, if_true]
        exact ⟨isAt, nofun⟩
      · simp only [call, iterate, finished]
        obtain ⟨⟨ahead, recorded, marked⟩, found⟩ := isAt.next
        refine ⟨⟨ahead.alike ⟨rfl, rfl, rfl, rfl⟩, recorded, marked⟩, fun token answered => ?_⟩
        exact found token (Option.some.inj answered)
  | mark =>
      refine ⟨⟨isAt.ahead.alike ⟨rfl, rfl, rfl, rfl⟩, ?_, ?_⟩, nofun⟩
      · simp [call, TokenStream.mark, MarkedPlace.after]
      · intro mark isMark
        cases isMark
        exact Nat.le_refl _
  | unmark => exact ⟨⟨isAt.ahead.alike ⟨rfl, rfl, rfl, rfl⟩, rfl, nofun⟩, nofun⟩
  | rewind => exact ⟨isAt.rewind, nofun⟩

/-- Calls in sequence keep a stream at its place. -/
theorem At.followAll (isAt : stream.At tokens place) (calls : List StreamCall) :
    (calls.foldl TokenStream.follow (stream, place)).1.At tokens
      (calls.foldl TokenStream.follow (stream, place)).2 := by
  induction calls generalizing stream place with
  | nil => exact isAt
  | cons call calls inductionHypothesis => exact inductionHypothesis (isAt.follow call).1

/-- A token stream is a place in the list of all tokens that a new stream hands out,
with an optional mark.  Whatever was called before, a token that is handed out is
the one at the place, and asking on hands out all tokens from there. -/
theorem stream_is_marked_place (features : FeatureSet) (source : String) :
    ∃ tokens, (ofSource features source).HandsOut tokens ∧
      ∀ calls : List StreamCall,
        let reached := calls.foldl follow (ofSource features source, ⟨0, none⟩)
        reached.1.HandsOut (tokens.drop reached.2.position) ∧
        ∀ call token, (reached.1.call call).1 = some (.ok token) →
          tokens[reached.2.position]? = some token := by
  obtain ⟨tokens, hands⟩ := (ofSource features source).exists_handsOut
  refine ⟨tokens, hands, fun calls => ?_⟩
  have starts : (ofSource features source).At tokens ⟨0, none⟩ := ⟨hands, rfl, nofun⟩
  have isAt := At.followAll starts calls
  exact ⟨isAt.ahead, fun call => (isAt.follow call).2⟩

end TokenStream

end Scriptlet
