import Scriptlet.Proofs.Parser.Feed
import Scriptlet.Proofs.Parser.Sources
import Scriptlet.Proofs.Token.Stream

/-!
Contract: parsing from a live stream is parsing the tokens that it will hand out.

Owns:
- what a stream supplies: tokens one after another, and the failure after them;
- a stream that is rewound supplies what was recorded again, and then what it
  would have supplied;
- a reader goes in step with the feed of its tokens, also while a mark is set;
- a text is parsed live exactly as the tokens that it is cut into.

A stream at the end of its text still answers, with a failure of its own.  That
failure stands after the end of input in the feed, so a parser that asked for a
token past the end would fail with it on either side.
-/

namespace Scriptlet

namespace TokenStream

variable {stream left right : TokenStream} {later : List Token} {stop : LexError}

/-- Whether a stream hands out some tokens one after another, and then fails. -/
def Supplies (stream : TokenStream) : List Token → LexError → Prop
  | [], stop => stream.next.1 = .error stop
  | token :: later, stop => stream.next.1 = .ok token ∧ stream.next.2.Supplies later stop

theorem Supplies.alike (supplies : left.Supplies later stop) (alike : left.ReadsAlike right) :
    right.Supplies later stop := by
  induction later generalizing left right with
  | nil => exact alike.next.1.symm.trans supplies
  | cons token later inductionHypothesis =>
      obtain ⟨first, rest⟩ := supplies
      exact ⟨alike.next.1.symm.trans first, inductionHypothesis rest alike.next.2⟩

/-- Tokens that are queued are supplied first. -/
theorem Supplies.queued (supplies : stream.Supplies later stop) (front : List Token) :
    { stream with queue := front ++ stream.queue }.Supplies (front ++ later) stop := by
  induction front with
  | nil => exact supplies
  | cons token front inductionHypothesis =>
      exact ⟨rfl, inductionHypothesis.alike ⟨rfl, rfl, rfl, rfl⟩⟩

/-- A stream that is rewound supplies what it recorded, and then goes on. -/
theorem Supplies.rewind {passed : List Token} (supplies : stream.Supplies later stop)
    (recorded : stream.recorded = some passed) :
    stream.rewind.Supplies (passed ++ later) stop := by
  rw [TokenStream.rewind, recorded]
  exact (supplies.queued passed).alike ⟨rfl, rfl, rfl, rfl⟩

/-- A stream that reads from its text supplies the tokens that the text is cut into.
It fails as the cutting does, or because the end was reached. -/
theorem supplies_scanAll (noQueue : stream.queue = []) (goesOn : stream.ended = false) :
    stream.Supplies (scanAll stream.features stream.cursor).tokens
      ((scanAll stream.features stream.cursor).failure.getD .exhausted) := by
  generalize isFeatures : stream.features = features
  generalize isCursor : stream.cursor = cursor
  fun_induction scanAll features cursor generalizing stream with
  | case1 cursor failure next scanned =>
      subst isFeatures isCursor
      exact congrArg Prod.fst (next_of_scan_error noQueue goesOn scanned)
  | case2 cursor token next scanned atEnd =>
      subst isFeatures isCursor
      have isNext := next_of_scan_ok noQueue goesOn scanned
      have ended : (token.kind == TokenKind.endOfInput) = true := beq_iff_eq.mpr atEnd
      refine ⟨congrArg Prod.fst isNext, ?_⟩
      rw [isNext, Supplies, next_of_ended]
      · rfl
      · exact noQueue
      · exact ended
  | case3 cursor token next scanned notEnd inductionHypothesis =>
      subst isFeatures isCursor
      have isNext := next_of_scan_ok noQueue goesOn scanned
      refine ⟨congrArg Prod.fst isNext, ?_⟩
      rw [isNext]
      exact inductionHypothesis noQueue (beq_eq_false_iff_ne.mpr notEnd) rfl rfl

end TokenStream

namespace Reader

/-- Whether a reader has the tokens of a feed before it. -/
structure Reads (reader : Reader) (feed : Feed) : Prop where
  current : reader.current = feed.current
  later : reader.stream.Supplies feed.later feed.stop

/-- Whether a reader with a mark has the tokens of a feed before it, where `kept` was
in sight at the mark and `whole` is the feed of that place. -/
structure ReadsFrom (kept : Token) (whole : Feed) (reader : Reader) (feed : Feed) : Prop where
  reads : reader.Reads feed
  kept : kept = whole.current
  stop : feed.stop = whole.stop
  recorded : ∃ passed, reader.stream.recorded = some passed ∧ whole.later = passed ++ feed.later

theorem ofStream_of_supplies_nil {stream : TokenStream} {stop : LexError}
    (supplies : stream.Supplies [] stop) : ofStream stream = .error stop := by
  have fails : stream.next.1 = .error stop := supplies
  unfold ofStream
  generalize stream.next = answered at fails ⊢
  obtain ⟨_, after⟩ := answered
  cases fails
  rfl

/-- The first token that a stream supplies comes in sight, and is recorded. -/
theorem exists_ofStream {stream : TokenStream} {token : Token} {later : List Token}
    {stop : LexError} (supplies : stream.Supplies (token :: later) stop) :
    ∃ reader, ofStream stream = .ok reader ∧ reader.Reads ⟨token, later, stop⟩ ∧
      reader.stream.recorded = stream.recorded.map (· ++ [token]) := by
  have answers := stream.answers_next
  obtain ⟨first, rest⟩ : stream.next.1 = .ok token ∧ stream.next.2.Supplies later stop := supplies
  unfold ofStream
  generalize stream.next = answered at answers first rest ⊢
  obtain ⟨_, after⟩ := answered
  cases first
  exact ⟨⟨token, after⟩, rfl, ⟨rfl, rest⟩, answers.recorded_of_ok⟩

/-- A reader and the feed that it reads go on alike. -/
theorem Reads.next {reader : Reader} {feed : Feed} (reads : reader.Reads feed) :
    SameOutcome (fun onward rest => onward.Reads rest ∧ rest.stop = feed.stop ∧
        feed.later = rest.current :: rest.later ∧
        onward.stream.recorded = reader.stream.recorded.map (· ++ [rest.current]))
      (TokenSource.next reader) (TokenSource.next feed) := by
  obtain ⟨current, later, stop⟩ := feed
  change SameOutcome _ (ofStream reader.stream) _
  cases later with
  | nil =>
      rw [ofStream_of_supplies_nil reads.later]
      exact .error stop
  | cons token later =>
      obtain ⟨onward, isOnward, stillReads, recorded⟩ := exists_ofStream reads.later
      rw [isOnward]
      exact .ok ⟨stillReads, rfl, rfl, recorded⟩

theorem inStep_reads : InStep Reads where
  current reads := reads.current
  next reads := reads.next.weaken fun _ _ step => step.1

theorem inStep_readsFrom (kept : Token) (whole : Feed) : InStep (ReadsFrom kept whole) where
  current marked := marked.reads.current
  next marked := by
    refine marked.reads.next.weaken fun reader feed ⟨reads, sameStop, isNext, recorded⟩ => ?_
    obtain ⟨passed, isPassed, isWhole⟩ := marked.recorded
    refine ⟨reads, marked.kept, sameStop.trans marked.stop, passed ++ [feed.current], ?_, ?_⟩
    · rw [recorded, isPassed, Option.map_some]
    · rw [isWhole, isNext, List.append_assoc, List.singleton_append]

/-- Marks of a reader and of a feed stand for the same place. -/
theorem marksInStep : MarksInStep Reads ReadsFrom where
  unmarked := inStep_reads
  whileMarked := inStep_readsFrom
  mark reads :=
    ⟨⟨reads.current, reads.later.alike ⟨rfl, rfl, rfl, rfl⟩⟩, reads.current, rfl, [], rfl, rfl⟩
  unmark marked := ⟨marked.reads.current, marked.reads.later.alike ⟨rfl, rfl, rfl, rfl⟩⟩
  rewind := by
    rintro kept whole reader feed ⟨reads, isKept, stop, passed, isPassed, isWhole⟩
    refine ⟨isKept, ?_⟩
    change reader.stream.rewind.Supplies whole.later whole.stop
    rw [isWhole, ← stop]
    exact reads.later.rewind isPassed

end Reader

/-- Parsing a text while its tokens are read is parsing the tokens that it is cut
into. -/
theorem parse_eq_parseTokens (features : FeatureSet) (source : String) :
    parse features source =
      parseTokens ⟨features, source.length + 1⟩ (scanAll features (Cursor.start source)) := by
  have supplies : (TokenStream.ofSource features source).Supplies
      (scanAll features (Cursor.start source)).tokens
      ((scanAll features (Cursor.start source)).failure.getD .exhausted) :=
    TokenStream.supplies_scanAll rfl rfl
  unfold parse parseTokens
  cases tokens : (scanAll features (Cursor.start source)).tokens with
  | nil =>
      rw [tokens] at supplies
      rw [Reader.ofStream_of_supplies_nil supplies]
  | cons current later =>
      rw [tokens] at supplies
      obtain ⟨reader, isReader, reads, _⟩ := Reader.exists_ofStream supplies
      rw [isReader]
      have same := Parser.same_program Reader.marksInStep ⟨features, source.length + 1⟩ reads
      simp only [StateT.run']
      generalize Parser.program ⟨features, source.length + 1⟩ reader = live at same ⊢
      generalize Parser.program ⟨features, source.length + 1⟩ (Feed.mk current later _) = fed
        at same ⊢
      cases same with
      | error failure => rfl
      | ok alike => exact congrArg Except.ok alike.1

/-- A text is cut into no more tokens than it has characters, its end apart. -/
theorem length_scanAll_le (features : FeatureSet) (cursor : Cursor) :
    (scanAll features cursor).tokens.length ≤ cursor.rest.length + 1 := by
  fun_induction scanAll features cursor with
  | case1 => exact Nat.zero_le _
  | case2 => exact Nat.le_add_left 1 _
  | case3 cursor token next scanned notEnd inductionHypothesis =>
      have shorter := length_scan_lt scanned notEnd
      simp only [TokenRun.cons, List.length_cons]
      omega

end Scriptlet
