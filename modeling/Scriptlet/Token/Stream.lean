import Scriptlet.Token.Scan

/-!
Contract: a token stream that can be marked and rewound.

Owns reading tokens one at a time, with a mark from which they can be handed
out again.  Tokens handed out since the mark are recorded; rewinding queues
them in front of whatever was queued before, and live reading resumes when the
queue is empty.  A failed read leaves the record and the queue alone.
-/

namespace Scriptlet

/-- The state of a token stream. -/
structure TokenStream where
  features : FeatureSet
  cursor : Cursor
  /-- Whether the end of input was read from the text. -/
  ended : Bool
  /-- Whether iteration is over. -/
  finished : Bool
  /-- The tokens handed out since the mark, if one is set. -/
  recorded : Option (List Token)
  /-- Tokens to hand out again before reading on. -/
  queue : List Token
deriving DecidableEq, Repr

namespace TokenStream

/-- A stream at the start of a text. -/
def ofSource (features : FeatureSet) (source : String) : TokenStream where
  features := features
  cursor := Cursor.start source
  ended := false
  finished := false
  recorded := none
  queue := []

/-- Adds a token to the record, if a mark is set. -/
def record (stream : TokenStream) (token : Token) : TokenStream :=
  { stream with recorded := stream.recorded.map (· ++ [token]) }

/-- Reads a token from the text.  Past the end of input there is none. -/
def readText (stream : TokenStream) : Except LexError Token × TokenStream :=
  if stream.ended then
    (.error .exhausted, stream)
  else
    match scan stream.features stream.cursor with
    | (.error failure, cursor) => (.error failure, { stream with cursor })
    | (.ok token, cursor) =>
        (.ok token, { stream with cursor, ended := token.kind == .endOfInput })

/-- Hands out the next token, queued or read from the text. -/
def next (stream : TokenStream) : Except LexError Token × TokenStream :=
  match stream.queue with
  | token :: queue => (.ok token, { stream with queue }.record token)
  | [] =>
      match stream.readText with
      | (.error failure, stream) => (.error failure, stream)
      | (.ok token, stream) => (.ok token, stream.record token)

/-- Sets the mark here, in place of any older one. -/
def mark (stream : TokenStream) : TokenStream :=
  { stream with recorded := some [] }

/-- Drops the mark. -/
def unmark (stream : TokenStream) : TokenStream :=
  { stream with recorded := none }

/-- Goes back to the mark and drops it; without a mark, does nothing. -/
def rewind (stream : TokenStream) : TokenStream :=
  match stream.recorded with
  | some tokens => { stream with recorded := none, queue := tokens ++ stream.queue }
  | none => stream

/-- Whether a result of `next` ends iteration: a failure or the end of input. -/
def isLast : Except LexError Token → Bool
  | .error _ => true
  | .ok token => token.kind == .endOfInput

/-- Iterates: as `next`, until a failure or the end of input was handed out. -/
def iterate (stream : TokenStream) : Option (Except LexError Token) × TokenStream :=
  if stream.finished then
    (none, stream)
  else
    let (result, stream) := stream.next
    (some result, { stream with finished := isLast result })

end TokenStream

end Scriptlet
