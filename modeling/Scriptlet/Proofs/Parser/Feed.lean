import Scriptlet.Parse.Program

/-!
Contract: a list of tokens as the source of a parser.

Parsers read live streams when they run.  A feed is the same tokens as a value:
those still to come, with the failure that stands after them.  Looking ahead is
then keeping the feed of a place, so that nothing has to be said of what was
recorded or queued.  What parsers accept and how they fail is proved on feeds.
-/

namespace Scriptlet

/-- The token in sight, those after it, and the failure met when they run out. -/
structure Feed where
  current : Token
  later : List Token
  stop : LexError

namespace Feed

/-- Brings the next token in sight. -/
def next (feed : Feed) : Except LexError Feed :=
  match feed.later with
  | next :: later => .ok { feed with current := next, later := later }
  | [] => .error feed.stop

/-- A mark is the feed that stands there. -/
instance : TokenSource Feed where
  Checkpoint := Feed
  current := current
  next := next
  mark feed := (feed, feed)
  unmark feed := feed
  rewind kept _ := kept

/-- The kinds of the token in sight and of those after it. -/
def kinds (feed : Feed) : List TokenKind :=
  feed.current.kind :: feed.later.map Token.kind

end Feed

/-- Parses tokens that were read before. -/
def parseTokens (grammar : Grammar) (run : TokenRun) : Except ParseError Block :=
  let stop := run.failure.getD .exhausted
  match run.tokens with
  | [] => .error (.lexical stop)
  | current :: later => (Parser.program grammar).run' (Feed.mk current later stop)

end Scriptlet
