import Scriptlet.Proofs.Token.Cut

/-!
Contract: the tokens of two texts that are joined by a line feed.

Owns:
- reading a token does not look past a line feed, nor at where in a text it stands;
- the tokens of a text that goes on with one that starts a line, which are its own
  tokens and then those of the other one;
- the tokens of two joined texts.

The line feed between the texts is a token, unless one comes before it with nothing
but layout between them.  In either case those that start the second text are passed
over.
-/

namespace Scriptlet

open Text

variable {features : FeatureSet}

/-! ## Reading in front of a line feed -/

/-- Whether a text is empty or starts with a line feed. -/
def StartsLine (tail : List Char) : Prop :=
  ∀ char ∈ tail.head?, char = '\n'

theorem startsLine_nil : StartsLine [] := nofun

theorem startsLine_newline (later : List Char) : StartsLine ('\n' :: later) := by
  intro char isFirst
  exact (Option.some.inj isFirst).symm

theorem StartsLine.any_head? {tail : List Char} (startsLine : StartsLine tail)
    {test : Char → Bool} (other : test '\n' = false) : tail.head?.any test = false := by
  cases tail with
  | nil => rfl
  | cons char rest =>
      rw [startsLine char rfl]
      exact other

/-- A token that ends where a text ends also ends in front of a line feed. -/
theorem TokenKind.MayPrecede.append {kind : TokenKind} {later tail : List Char}
    (apart : kind.MayPrecede later) (startsLine : StartsLine tail) :
    kind.MayPrecede (later ++ tail) := by
  cases later with
  | cons char later => exact apart
  | nil =>
      rw [List.nil_append]
      cases kind with
      | identifier | keyword => exact startsLine.any_head? (by decide +kernel)
      | integer => exact startsLine.any_head? (by decide)
      | newline | endOfInput => trivial
      | symbol sign =>
          cases sign with
          | less | greater => exact fun isEqual => absurd (startsLine '=' isEqual) (by decide)
          | _ => trivial

/-- The words `is not` do not reach over a line feed. -/
theorem StartsIsNot.of_append {text tail : List Char} (starts : StartsIsNot (text ++ tail))
    (startsLine : StartsLine tail) : StartsIsNot text := by
  obtain ⟨later, isText, apart⟩ := starts
  rcases List.append_eq_append_iff.mp isText with ⟨middle, isWords, isTail⟩ | ⟨middle, rfl, isLater⟩
  · -- The text ends inside the words or with them, and no line feed goes on with them.
    cases middle with
    | nil =>
        rw [List.append_nil] at isWords
        exact ⟨[], by rw [isWords, List.append_nil], rfl⟩
    | cons char middle =>
        have isNewline : char = '\n' := startsLine char (by rw [isTail]; rfl)
        have member : char ∈ "is not".toList := by simp [isWords]
        rw [isNewline] at member
        exact absurd member (by decide)
  · refine ⟨middle, rfl, ?_⟩
    cases middle with
    | nil => rfl
    | cons char middle =>
        rw [isLater] at apart
        exact apart

/-- A token in front of a line feed is read as it would be at the end of a text. -/
theorem scan_append {tail : List Char} (startsLine : StartsLine tail) {cursor next : Cursor}
    {token : Token} (scanned : scan features cursor = (.ok token, next))
    (notEnd : token.kind ≠ .endOfInput) (position : Nat) :
    ∃ other otherPosition, other.kind = token.kind ∧
      scan features ⟨cursor.rest ++ tail, position, cursor.afterNewline⟩ =
        (.ok other, ⟨next.rest ++ tail, otherPosition, next.afterNewline⟩) := by
  obtain ⟨gap, lexeme, cut⟩ := exists_cut_of_scan scanned
  have isNot : token.kind = .keyword .is → ¬ StartsIsNot (lexeme ++ (next.rest ++ tail)) := by
    intro isIs starts
    rw [← List.append_assoc] at starts
    exact cut.isNot isIs (starts.of_append startsLine)
  rw [cut.text, List.append_assoc, List.append_assoc]
  exact exists_scan_of_cut cut (readable_of_scan scanned) notEnd (cut.apart.append startsLine) isNot
    position

/-! ## Joined texts -/

/-- Whether a line feed comes last in token kinds, or before them if there are none. -/
def endsLine (afterNewline : Bool) (kinds : List TokenKind) : Bool :=
  kinds.foldl (fun _ kind => kind == .newline) afterNewline

theorem endsLine_append (afterNewline : Bool) (first second : List TokenKind) :
    endsLine afterNewline (first ++ second) = endsLine (endsLine afterNewline first) second :=
  List.foldl_append

/-- The tokens of a text that goes on with one that starts a line are its own, and then
those of the text it goes on with. -/
theorem exists_scanAll_append {tail : List Char} (startsLine : StartsLine tail) {cursor : Cursor}
    {front : List TokenKind} (isFront : (scanAll features cursor).kinds = front ++ [.endOfInput])
    (position : Nat) :
    ∃ other, (scanAll features ⟨cursor.rest ++ tail, position, cursor.afterNewline⟩).kinds =
      front ++ (scanAll features ⟨tail, other, endsLine cursor.afterNewline front⟩).kinds := by
  fun_induction scanAll features cursor generalizing front position with
  | case1 => simp [TokenRun.kinds] at isFront
  | case2 cursor token next scanned atEnd =>
      obtain ⟨gap, lexeme, cut⟩ := exists_cut_of_scan scanned
      have spelled := cut.spelled
      have text := cut.text
      have layout := cut.layout
      rw [atEnd] at spelled
      rw [spelled, cut.last atEnd, List.append_nil, List.append_nil] at text
      rw [spelled, cut.last atEnd] at layout
      have isNil : front = [] := by simpa [TokenRun.kinds] using congrArg List.length isFront
      have layoutThere : Layout tail gap :=
        layout.of_head? fun char isFirst => .inl (startsLine char isFirst)
      refine ⟨position + byteLength gap, ?_⟩
      rw [text, scanAll_eq, scan_of_layout layoutThere cut.quiet, ← scanAll_eq, isNil]
      rfl
  | case3 cursor token next scanned notEnd inductionHypothesis =>
      rw [TokenRun.kinds_cons] at isFront
      cases front with
      | nil => exact absurd (List.cons.inj isFront).1 notEnd
      | cons kind front =>
          obtain ⟨rfl, isRest⟩ := List.cons.inj isFront
          obtain ⟨gap, lexeme, cut⟩ := exists_cut_of_scan scanned
          have isAfter : next.afterNewline = (token.kind == .newline) := by
            rw [Bool.eq_iff_iff, cut.afterNewline notEnd, beq_iff_eq]
          obtain ⟨there, otherPosition, sameKind, scannedThere⟩ :=
            scan_append startsLine scanned notEnd position
          obtain ⟨other, kinds⟩ := inductionHypothesis isRest otherPosition
          have sameEnd : endsLine cursor.afterNewline (token.kind :: front) =
              endsLine next.afterNewline front := by
            rw [isAfter]
            rfl
          refine ⟨other, ?_⟩
          rw [scanAll_of_scan scannedThere (sameKind ▸ notEnd), TokenRun.kinds_cons, sameKind, kinds,
            sameEnd, List.cons_append]

/-- Where a text stands makes no difference to the kinds of its tokens. -/
theorem kinds_of_position {cursor : Cursor} {front : List TokenKind}
    (isFront : (scanAll features cursor).kinds = front ++ [.endOfInput]) (position : Nat) :
    (scanAll features ⟨cursor.rest, position, cursor.afterNewline⟩).kinds =
      front ++ [.endOfInput] := by
  obtain ⟨other, kinds⟩ := exists_scanAll_append startsLine_nil isFront position
  rw [List.append_nil] at kinds
  have atEnd : scanAll features ⟨[], other, endsLine cursor.afterNewline front⟩ =
      ⟨[⟨.endOfInput, other, other⟩], none⟩ := by
    rw [scanAll_eq]
    rfl
  rw [kinds, atEnd]
  rfl

theorem reads_of_scanAll {chars : List Char} {start : Nat} {front : List TokenKind}
    (isFront : (scanAll features ⟨chars, start, false⟩).kinds = front ++ [.endOfInput]) :
    Reads features chars (front ++ [.endOfInput]) := by
  intro position
  have kinds := kinds_of_position isFront position
  exact ⟨(eq_append_endOfInput kinds).2, kinds⟩

/-- The kinds without a line feed at their start. -/
def dropFirstNewline : List TokenKind → List TokenKind
  | .newline :: rest => rest
  | kinds => kinds

theorem dropFirstNewline_of_head? {kinds : List TokenKind} (other : kinds.head? ≠ some .newline) :
    dropFirstNewline kinds = kinds := by
  unfold dropFirstNewline
  split
  · exact absurd rfl other
  · rfl

/-- The first kind of a text is that of the token it starts with. -/
theorem exists_scan_of_head {cursor : Cursor} {kind : TokenKind}
    (head : (scanAll features cursor).kinds.head? = some kind) :
    ∃ token next, scan features cursor = (.ok token, next) ∧ token.kind = kind := by
  rw [scanAll_eq] at head
  rcases scanned : scan features cursor with ⟨_ | token, next⟩
  · rw [scanned] at head
    cases head
  · rw [scanned] at head
    refine ⟨token, next, rfl, ?_⟩
    simp only at head
    split at head
    · exact Option.some.inj head
    · exact Option.some.inj head

/-- A line feed that is a token is passed over after another one. -/
theorem Cut.scan_past {chars gap lexeme : List Char} {position : Nat} {token : Token}
    {next : Cursor} (cut : Cut ⟨chars, position, false⟩ token next gap lexeme)
    (isNewline : token.kind = .newline) :
    scan features ⟨chars, position, true⟩ = scan features next := by
  obtain ⟨rest, nextPosition, isAfter⟩ := next
  have spelled := cut.spelled
  rw [isNewline] at spelled
  cases spelled
  have text : chars = gap ++ '\n' :: rest := by simpa using cut.text
  have isPosition : nextPosition = position + byteLength gap + 1 := by
    have size : '\n'.utf8Size = 1 := by decide
    have isStop := cut.position
    rw [cut.stop, cut.start, byteLength_cons, size] at isStop
    exact isStop
  have isLine : isAfter = true := (cut.afterNewline (by simp [isNewline])).mpr isNewline
  have layout : Layout ('\n' :: rest) gap := cut.layout
  rw [text, isPosition, isLine, scan_of_layout layout (by simp)]
  rfl

/-- After a line feed a text is cut as it is on its own, but for a line feed at its
start. -/
theorem Reads.kinds_after_newline {chars : List Char} {kinds : List TokenKind}
    (reads : Reads features chars kinds) (position : Nat) :
    (scanAll features ⟨chars, position, true⟩).kinds = dropFirstNewline kinds := by
  by_cases head : kinds.head? = some .newline
  · obtain ⟨_, isAll⟩ := reads position
    rw [← isAll] at head ⊢
    obtain ⟨token, next, scanned, isNewline⟩ := exists_scan_of_head head
    obtain ⟨gap, lexeme, cut⟩ := exists_cut_of_scan scanned
    rw [scanAll_eq, cut.scan_past isNewline, ← scanAll_eq,
      scanAll_of_scan scanned (by simp [isNewline]), TokenRun.kinds_cons, isNewline]
    rfl
  · rw [dropFirstNewline_of_head? head]
    exact (reads.afterNewline head position).2

/-- The tokens of two texts that are joined by a line feed are those of the first, the
line feed unless one comes last there, and those of the second without a line feed at
its start. -/
theorem kinds_append_newline {first second : String} {front back : List TokenKind}
    (isFront : (scanAll features (Cursor.start first)).kinds = front ++ [.endOfInput])
    (isBack : (scanAll features (Cursor.start second)).kinds = back ++ [.endOfInput]) :
    (scanAll features (Cursor.start (first ++ "\n" ++ second))).kinds =
      front ++ ((if endsLine false front then [] else [.newline]) ++
        dropFirstNewline (back ++ [.endOfInput])) := by
  have isText : (first ++ "\n" ++ second).toList = first.toList ++ '\n' :: second.toList := by
    simp
  have goesOn := (reads_of_scanAll isBack).kinds_after_newline
  obtain ⟨other, isAll⟩ :=
    exists_scanAll_append (startsLine_newline second.toList) isFront 0
  rw [Cursor.start, isText]
  refine isAll.trans (congrArg _ ?_)
  cases ends : endsLine false front with
  | true =>
      have scanned : scan features ⟨'\n' :: second.toList, other, true⟩ =
          scan features ⟨second.toList, other + 1, true⟩ := rfl
      rw [Cursor.start, ends, scanAll_eq, scanned, ← scanAll_eq, goesOn]
      rfl
  | false =>
      have scanned : scan features ⟨'\n' :: second.toList, other, false⟩ =
          (.ok ⟨.newline, other, other + 1⟩, ⟨second.toList, other + 1, true⟩) := rfl
      rw [Cursor.start, ends, scanAll_of_scan scanned (by simp), TokenRun.kinds_cons, goesOn]
      rfl

end Scriptlet
