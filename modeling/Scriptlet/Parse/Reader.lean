import Scriptlet.Parse.Source
import Scriptlet.Token.Stream

/-!
Contract: reading a token stream with one token in sight.

A reader holds the token that its stream handed out last.  A mark records what
the stream hands out after the token in sight, so the token itself is kept apart
and comes back in sight when the stream is rewound.
-/

namespace Scriptlet

/-- A token in sight, and the stream that the later ones come from. -/
structure Reader where
  current : Token
  stream : TokenStream

namespace Reader

/-- Brings the next token of a stream in sight. -/
def ofStream (stream : TokenStream) : Except LexError Reader :=
  match stream.next with
  | (.ok token, stream) => .ok ⟨token, stream⟩
  | (.error failure, _) => .error failure

instance : TokenSource Reader where
  Checkpoint := Token
  current := current
  next reader := ofStream reader.stream
  mark reader := (reader.current, { reader with stream := reader.stream.mark })
  unmark reader := { reader with stream := reader.stream.unmark }
  rewind kept reader := ⟨kept, reader.stream.rewind⟩

end Reader

end Scriptlet
