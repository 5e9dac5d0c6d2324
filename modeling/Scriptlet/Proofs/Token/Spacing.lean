import Scriptlet.Proofs.Token.Failure
import Scriptlet.Proofs.Token.Joint

/-!
Contract: layout that is put next to a token changes no token.

Owns:
- the texts that can stand in a gap within one line, and where each may be put;
- layout stays layout when a gap is made wider;
- what a token may precede, and where `is not` is read, with a text put in between;
- the kinds of a text with a wider gap, which are those it had.

A token looks at the text after it, so a gap that is made wider is other text to every
token before it.  Only the one right in front of the gap and an `is` can notice.
-/

namespace Scriptlet

open Text

variable {features : FeatureSet}

/-! ## What can stand in a gap -/

/-- Whether a text is made of blanks that end no line. -/
def InLineBlanks (text : List Char) : Prop :=
  ∀ char ∈ text, isBlank char = true ∧ char ≠ '\n'

/-- Whether a text can stand in a gap within one line. -/
inductive Filler : List Char → Prop where
  | blanks {text : List Char} (blank : InLineBlanks text) : Filler text
  | comment {body : List Char} (inLine : '\n' ∉ body) : Filler ('#' :: body)

namespace Filler

variable {text : List Char}

theorem inLine (filler : Filler text) : '\n' ∉ text := by
  cases filler with
  | blanks blank => exact fun member => (blank _ member).2 rfl
  | comment inLine => simp [inLine]

/-- A filler starts with nothing that goes on with a token. -/
theorem head_class (filler : Filler text) {first : Char} {rest : List Char}
    (isText : text = first :: rest) :
    first ≠ '=' ∧ first.isDigit = false ∧ isWordChar first = false := by
  cases filler with
  | blanks blank =>
      have isBlankFirst : isBlank first = true := (blank first (by simp [isText])).1
      have notWord := isWordChar_of_isBlank isBlankFirst
      refine ⟨?_, ?_, notWord⟩
      · rintro rfl
        exact absurd isBlankFirst (by decide)
      · rw [Bool.eq_false_iff]
        intro digit
        rw [(digit_class digit).2.2.2] at notWord
        cases notWord
  | comment inLine =>
      cases isText
      decide +kernel

end Filler

namespace Layout

variable {later gap text : List Char}

theorem blanks_append (blank : InLineBlanks text) (layout : Layout later gap) :
    Layout later (text ++ gap) := by
  induction text with
  | nil => exact layout
  | cons char text inductionHypothesis =>
      obtain ⟨isBlank, inRest⟩ := List.forall_mem_cons.mp blank
      exact .blank isBlank.1 (inductionHypothesis inRest)

/-- A text within one line that is layout can be put at the end of a gap: a comment that
ends the gap runs through it. -/
theorem append (layout : Layout later gap) (textLayout : Layout later text)
    (inLine : '\n' ∉ text) : Layout later (gap ++ text) := by
  induction layout with
  | none => exact textLayout
  | blank isBlank _ inductionHypothesis => exact .blank isBlank inductionHypothesis
  | @comment body rest bodyInLine upTo _ inductionHypothesis =>
      cases rest with
      | nil =>
          have longer : '\n' ∉ body ++ text := by simp [bodyInLine, inLine]
          rw [List.append_nil, List.cons_append, ← List.append_nil (body ++ text)]
          exact .comment longer upTo .none
      | cons first rest =>
          rw [List.cons_append, List.append_assoc]
          exact .comment bodyInLine upTo inductionHypothesis

/-- No word and no run of digits goes on over the end of a gap. -/
theorem detached (layout : Layout later gap) : Detached gap later := by
  cases later with
  | nil => exact fun _ _ _ isFirst => nomatch isFirst
  | cons first later =>
      by_cases isNewline : first = '\n'
      · subst isNewline
        rintro _ _ _ ⟨⟩
        exact ⟨fun _ => by decide, fun _ => by decide +kernel⟩
      · exact detached_of_isBlank (layout.isBlank_getLast? rfl isNewline)

end Layout

/-! ## Reading in front of a filler -/

/-- A token in front of a text may precede it with a filler put into it. -/
theorem TokenKind.MayPrecede.insert {kind : TokenKind} {front text back : List Char}
    (apart : kind.MayPrecede (front ++ back)) (filler : Filler text) :
    kind.MayPrecede (front ++ (text ++ back)) := by
  cases front with
  | cons char front => exact apart
  | nil =>
      cases text with
      | nil => exact apart
      | cons first text =>
          obtain ⟨notEqual, notDigit, notWord⟩ := filler.head_class rfl
          cases kind with
          | identifier | keyword => exact notWord
          | integer => exact notDigit
          | newline | endOfInput => trivial
          | symbol sign =>
              cases sign with
              | less | greater => exact fun isEqual => notEqual (Option.some.inj isEqual)
              | _ => trivial

/-- Where a filler makes up the blank before a `not`, this stood right behind. -/
theorem head_isWordChar_of_filler_not {first : Char} {text back more : List Char}
    (filler : Filler (first :: text))
    (isRest : first :: text ++ back = ' ' :: 'n' :: 'o' :: 't' :: more) :
    back.head?.any isWordChar = true := by
  obtain ⟨rfl, isNot⟩ := List.cons.inj isRest
  cases text with
  | nil =>
      rw [show back = 'n' :: 'o' :: 't' :: more from isNot]
      exact (by decide +kernel : isWordChar 'n' = true)
  | cons char text =>
      obtain ⟨rfl, -⟩ := List.cons.inj isNot
      cases filler with
      | blanks blank => exact absurd (blank 'n' (by simp)).1 (by decide)

/-- No `is not` comes to be where a filler is put behind an `is`. -/
theorem StartsIsNot.of_insert {front text back : List Char} (filler : Filler text)
    (starts : StartsIsNot ("is".toList ++ (front ++ (text ++ back))))
    (apart : (front ++ back).head?.any isWordChar = false)
    (detached : Detached ("is".toList ++ front) back) :
    StartsIsNot ("is".toList ++ (front ++ back)) := by
  obtain ⟨more, isWords, moreApart⟩ := starts
  cases text with
  | nil => exact ⟨more, isWords, moreApart⟩
  | cons first text =>
      have isRest : front ++ (first :: text ++ back) = ' ' :: 'n' :: 'o' :: 't' :: more := by
        simpa using isWords
      cases front with
      | nil =>
          rw [List.nil_append, head_isWordChar_of_filler_not filler isRest] at apart
          cases apart
      | cons space front =>
          obtain ⟨rfl, isNot⟩ := List.cons.inj isRest
          change front ++ (first :: text ++ back) = ['n', 'o', 't'] ++ more at isNot
          -- The words stand before the filler, which has none of their letters, and so they
          -- stood there without it.
          obtain ⟨middle, rfl, isMore⟩ : ∃ middle, front = ['n', 'o', 't'] ++ middle ∧
              more = middle ++ (first :: text ++ back) := by
            rcases List.append_eq_append_iff.mp isNot with
              ⟨middle, isWord, isText⟩ | found
            · cases middle with
              | nil => exact ⟨[], by simpa using isWord.symm, isText.symm⟩
              | cons char middle =>
                  obtain ⟨rfl, -⟩ := List.cons.inj isText
                  have letters : ['n', 'o', 't'].all isWordChar = true := by decide +kernel
                  have isLetter := List.all_eq_true.mp letters first (by simp [isWord])
                  rw [(filler.head_class rfl).2.2] at isLetter
                  cases isLetter
            · exact found
          have startsFront : StartsIsNot ("is".toList ++ ' ' :: (['n', 'o', 't'] ++ middle)) := by
            refine ⟨middle, rfl, ?_⟩
            cases middle with
            | nil => rfl
            | cons char middle =>
                rw [isMore] at moreApart
                exact moreApart
          rw [← List.append_assoc]
          exact startsFront.append detached

/-! ## Wider gaps -/

section

variable {cursor next : Cursor} {token : Token} {gap lexeme front text back : List Char}

/-- Whether a text at a cursor is cut into tokens of the same kinds with another text put
into it, at a place that no word and no run of digits goes on over. -/
structure Widens (features : FeatureSet) (cursor : Cursor) (front text back : List Char) :
    Prop where
  isText : cursor.rest = front ++ back
  detached : Detached front back
  sameKinds : ∀ position,
    (scanAll features ⟨front ++ (text ++ back), position, cursor.afterNewline⟩).kinds =
      (scanAll features cursor).kinds

/-- Layout in front of a text can be exchanged for longer layout. -/
theorem kinds_of_longer_layout {wide later : List Char} (isText : cursor.rest = gap ++ later)
    (finished : (scanAll features cursor).failure = none)
    (layout : Layout later gap) (quiet : cursor.afterNewline = false → '\n' ∉ gap)
    (wideLayout : Layout later wide) (wideQuiet : cursor.afterNewline = false → '\n' ∉ wide)
    (longer : byteLength gap ≤ byteLength wide) (position : Nat) :
    (scanAll features ⟨wide ++ later, position, cursor.afterNewline⟩).kinds =
      (scanAll features cursor).kinds := by
  obtain ⟨kinds, -, ⟨-, isAll⟩ | ⟨failed, -⟩⟩ := scanAll_kinds_shape features cursor
  · -- The same text is left after either layout, at the same offset if the shorter one is
    -- read further on.
    have moved := kinds_of_position isAll (position + (byteLength wide - byteLength gap))
    have sameOffset : position + (byteLength wide - byteLength gap) + byteLength gap =
        position + byteLength wide := by omega
    rw [isText, scanAll_eq, scan_of_layout layout quiet, sameOffset] at moved
    rw [scanAll_eq, scan_of_layout wideLayout wideQuiet, moved, isAll]
  · exact absurd finished failed

/-- Blanks can be put where reading a token starts. -/
theorem widens_here (scanned : scan features cursor = (.ok token, next))
    (finished : (scanAll features cursor).failure = none) (blank : InLineBlanks text) :
    Widens features cursor [] text cursor.rest := by
  obtain ⟨gap, lexeme, cut⟩ := exists_cut_of_scan scanned
  have isText : cursor.rest = gap ++ (lexeme ++ next.rest) := by
    rw [cut.text, List.append_assoc]
  have quiet : cursor.afterNewline = false → '\n' ∉ text ++ gap := by
    intro isBefore
    simp [(Filler.blanks blank).inLine, cut.quiet isBefore]
  refine ⟨rfl, nofun, fun position => ?_⟩
  rw [List.nil_append, isText, ← List.append_assoc]
  refine kinds_of_longer_layout isText finished cut.layout cut.quiet
    (cut.layout.blanks_append blank) quiet ?_ position
  rw [byteLength_append]
  omega

/-- A text within one line that is layout can be put right in front of a token. -/
theorem widens_before (cut : Cut cursor token next gap lexeme)
    (finished : (scanAll features cursor).failure = none)
    (layout : Layout (lexeme ++ next.rest) text) (inLine : '\n' ∉ text) :
    Widens features cursor gap text (lexeme ++ next.rest) := by
  have isText : cursor.rest = gap ++ (lexeme ++ next.rest) := by
    rw [cut.text, List.append_assoc]
  have quiet : cursor.afterNewline = false → '\n' ∉ gap ++ text := by
    intro isBefore
    simp [inLine, cut.quiet isBefore]
  refine ⟨isText, cut.layout.detached, fun position => ?_⟩
  rw [← List.append_assoc]
  refine kinds_of_longer_layout isText finished cut.layout cut.quiet
    (cut.layout.append layout inLine) quiet ?_ position
  rw [byteLength_append]
  omega

/-- A token in front of a text is read as before with a filler put into that text. -/
theorem Widens.after (widens : Widens features next front text back) (filler : Filler text)
    (scanned : scan features cursor = (.ok token, next)) (notEnd : token.kind ≠ .endOfInput)
    (cut : Cut cursor token next gap lexeme) :
    Widens features cursor (gap ++ (lexeme ++ front)) text back := by
  have apart := cut.apart
  have isNot := cut.isNot
  rw [widens.isText] at apart isNot
  have nonempty := cut.nonempty notEnd
  have detached : Detached (lexeme ++ front) back := by
    cases front with
    | nil =>
        rw [List.append_nil]
        exact detached_of_spelled nonempty cut.spelled apart
    | cons char front => exact widens.detached.append_left (List.cons_ne_nil _ _) lexeme
  have stillIsNot : token.kind = .keyword .is →
      ¬ StartsIsNot (lexeme ++ (front ++ (text ++ back))) := by
    intro isIs starts
    have spelled := cut.spelled
    rw [isIs] at spelled apart
    rw [show lexeme = "is".toList from spelled] at starts detached isNot
    exact isNot isIs (starts.of_insert filler apart detached)
  refine ⟨?_, detached.append_left (by simp [nonempty]) gap, fun position => ?_⟩
  · rw [cut.text, widens.isText]
    simp only [List.append_assoc]
  · obtain ⟨other, otherPosition, sameKind, scannedThere⟩ :=
      exists_scan_of_cut cut (readable_of_scan scanned) notEnd (apart.insert filler) stillIsNot
        position
    have isSame : gap ++ (lexeme ++ front) ++ (text ++ back) =
        gap ++ (lexeme ++ (front ++ (text ++ back))) := by
      simp only [List.append_assoc]
    rw [isSame, scanAll_of_scan scannedThere (sameKind ▸ notEnd), scanAll_of_scan scanned notEnd,
      TokenRun.kinds_cons, TokenRun.kinds_cons, sameKind, widens.sameKinds]

end

/-! ## Layout next to tokens -/

/-- Whether a text is layout that may be put at a byte offset of a text that is cut into
tokens: blanks at an edge of a token, or a comment in front of one that ends a line. -/
inductive Spaces (tokens : List Token) (position : Nat) : List Char → Prop where
  | blanks {token : Token} {text : List Char} (member : token ∈ tokens)
      (atEdge : position = token.start ∨ position = token.stop) (blank : InLineBlanks text) :
      Spaces tokens position text
  | comment {token : Token} {body : List Char} (member : token ∈ tokens)
      (lastInLine : token.kind = .newline ∨ token.kind = .endOfInput)
      (before : position = token.start) (inLine : '\n' ∉ body) :
      Spaces tokens position ('#' :: body)

theorem Spaces.filler {tokens : List Token} {position : Nat} {text : List Char}
    (spaces : Spaces tokens position text) : Filler text := by
  cases spaces with
  | blanks _ _ blank => exact .blanks blank
  | comment _ _ _ inLine => exact .comment inLine

/-- The text behind the lexeme of a token that ends a line goes on with no line. -/
theorem Cut.startsLine {cursor next : Cursor} {token : Token} {gap lexeme : List Char}
    (cut : Cut cursor token next gap lexeme)
    (lastInLine : token.kind = .newline ∨ token.kind = .endOfInput) :
    StartsLine (lexeme ++ next.rest) := by
  have spelled := cut.spelled
  rcases lastInLine with isNewline | isEnd
  · rw [isNewline] at spelled
    rw [show lexeme = ['\n'] from spelled]
    exact startsLine_newline next.rest
  · rw [isEnd] at spelled
    rw [show lexeme = [] from spelled, cut.last isEnd]
    exact startsLine_nil

theorem Cut.exists_widens {cursor next : Cursor} {token : Token} {gap lexeme text : List Char}
    (cut : Cut cursor token next gap lexeme)
    (finished : (scanAll features cursor).failure = none)
    (spaces : Spaces [token] token.start text) :
    ∃ front back, Widens features cursor front text back ∧
      token.start = cursor.position + byteLength front := by
  have layout : Layout (lexeme ++ next.rest) text := by
    cases spaces with
    | blanks _ _ blank =>
        rw [← List.append_nil text]
        exact Layout.none.blanks_append blank
    | @comment token body member lastInLine _ inLine =>
        cases List.mem_singleton.mp member
        rw [← List.append_nil body]
        exact .comment inLine (cut.startsLine lastInLine) .none
  exact ⟨gap, lexeme ++ next.rest, widens_before cut finished layout spaces.filler.inLine, cut.start⟩

/-- Layout next to some tokens is put in front of the first, right behind it, or next to
the others. -/
theorem Spaces.of_cons {token : Token} {tokens : List Token} {position : Nat} {text : List Char}
    (spaces : Spaces (token :: tokens) position text) :
    position = token.start ∧ Spaces [token] token.start text ∨
      position = token.stop ∧ InLineBlanks text ∨ Spaces tokens position text := by
  cases spaces with
  | blanks member atEdge blank =>
      rcases List.mem_cons.mp member with rfl | member
      · rcases atEdge with atStart | atStop
        · exact .inl ⟨atStart, .blanks (List.mem_singleton_self _) (.inl rfl) blank⟩
        · exact .inr (.inl ⟨atStop, blank⟩)
      · exact .inr (.inr (.blanks member atEdge blank))
  | comment member lastInLine before inLine =>
      rcases List.mem_cons.mp member with rfl | member
      · exact .inl ⟨before, .comment (List.mem_singleton_self _) lastInLine rfl inLine⟩
      · exact .inr (.inr (.comment member lastInLine before inLine))

/-- Layout can be put next to any token that is read from a cursor on.  Right behind a
token it is put where reading the next one starts. -/
theorem exists_widens_of_spaces {cursor : Cursor} {position : Nat} {text : List Char}
    (finished : (scanAll features cursor).failure = none) (filler : Filler text)
    (spaces : Spaces (scanAll features cursor).tokens position text ∨
      position = cursor.position ∧ InLineBlanks text) :
    ∃ front back, Widens features cursor front text back ∧
      position = cursor.position + byteLength front := by
  fun_induction scanAll features cursor with
  | case1 => cases finished
  | case2 cursor token next scanned atEnd =>
      have finished : (scanAll features cursor).failure = none := by
        rw [scanAll_eq, scanned]
        simp only [atEnd, if_pos]
      obtain ⟨gap, lexeme, cut⟩ := exists_cut_of_scan scanned
      rcases spaces with spaces | ⟨rfl, blank⟩
      · rcases spaces.of_cons with ⟨rfl, inFront⟩ | ⟨rfl, blank⟩ | spaces
        · exact cut.exists_widens finished inFront
        · have spelled := cut.spelled
          have isStop := cut.stop
          rw [atEnd] at spelled
          rw [show lexeme = [] from spelled] at isStop
          rw [show token.stop = token.start from isStop]
          exact cut.exists_widens finished (.blanks (List.mem_singleton_self _) (.inl rfl) blank)
        · cases spaces <;> contradiction
      · exact ⟨[], cursor.rest, widens_here scanned finished blank, rfl⟩
  | case3 cursor token next scanned notEnd inductionHypothesis =>
      have whole : (scanAll features cursor).failure = none := by
        rw [scanAll_of_scan scanned notEnd]
        exact finished
      obtain ⟨gap, lexeme, cut⟩ := exists_cut_of_scan scanned
      have behind : (Spaces (scanAll features next).tokens position text ∨
          position = next.position ∧ InLineBlanks text) →
          ∃ front back, Widens features cursor front text back ∧
            position = cursor.position + byteLength front := by
        intro spaces
        obtain ⟨front, back, widens, isPosition⟩ := inductionHypothesis finished spaces
        refine ⟨_, back, widens.after filler scanned notEnd cut, ?_⟩
        have isNext := cut.position
        rw [cut.stop, cut.start] at isNext
        simp only [byteLength_append]
        omega
      rcases spaces with spaces | ⟨rfl, blank⟩
      · rcases spaces.of_cons with ⟨rfl, inFront⟩ | ⟨atStop, blank⟩ | spaces
        · exact cut.exists_widens whole inFront
        · exact behind (.inr ⟨atStop.trans cut.position.symm, blank⟩)
        · exact behind (.inl spaces)
      · exact ⟨[], cursor.rest, widens_here scanned whole blank, rfl⟩

/-- Where layout is put next to a token, a text is cut into tokens of the same kinds.  The
byte offset splits the text between two characters, in one way. -/
theorem tokenize_spaced {source : String} {tokens : List Token} {position : Nat}
    {text : List Char} (tokenized : tokenize features source = .ok tokens)
    (spaces : Spaces tokens position text) :
    ∃ before after others, source.toList = before ++ after ∧ byteLength before = position ∧
      tokenize features (String.ofList (before ++ text ++ after)) = .ok others ∧
      others.map Token.kind = tokens.map Token.kind := by
  obtain ⟨finished, rfl⟩ := tokenize_eq_ok_iff.mp tokenized
  obtain ⟨before, after, widens, isPosition⟩ :=
    exists_widens_of_spaces finished spaces.filler (.inl spaces)
  have isStart : Cursor.start (String.ofList (before ++ text ++ after)) =
      ⟨before ++ (text ++ after), 0, (Cursor.start source).afterNewline⟩ := by
    rw [Cursor.start, String.toList_ofList, List.append_assoc]
    rfl
  have sameKinds := widens.sameKinds 0
  rw [← isStart] at sameKinds
  obtain ⟨kinds, -, ⟨-, isAll⟩ | ⟨failed, -⟩⟩ :=
    scanAll_kinds_shape features (Cursor.start source)
  · have finishes := (eq_append_endOfInput (sameKinds.trans isAll)).2
    refine ⟨before, after, _, widens.isText, ?_, tokenize_eq_ok_iff.mpr ⟨finishes, rfl⟩, sameKinds⟩
    rw [isPosition]
    exact (Nat.zero_add _).symm
  · exact absurd finished failed

/-- A blank right behind `is` makes no `is not` with the `not` after it, and a comment in
front of a line feed goes on with the one that stands there. -/
theorem tokenize_spaced_isTab :
    ∃ tokens, tokenize FeatureSet.none "é is\tnot #\n<" = .ok tokens ∧
      Spaces tokens 5 [' '] ∧ Spaces tokens 11 ['#', '='] ∧
      (∃ before after others, "é is\tnot #\n<".toList = before ++ after ∧
        byteLength before = 5 ∧
        tokenize FeatureSet.none (String.ofList (before ++ [' '] ++ after)) = .ok others ∧
        others.map Token.kind = tokens.map Token.kind) ∧
      ∃ before after others, "é is\tnot #\n<".toList = before ++ after ∧
        byteLength before = 11 ∧
        tokenize FeatureSet.none (String.ofList (before ++ ['#', '='] ++ after)) = .ok others ∧
        others.map Token.kind = tokens.map Token.kind := by
  have tokenized : tokenize FeatureSet.none "é is\tnot #\n<" =
      .ok [⟨.identifier "é", 0, 2⟩, ⟨.keyword .is, 3, 5⟩, ⟨.keyword .not, 6, 9⟩,
        ⟨.newline, 11, 12⟩, ⟨.symbol .less, 12, 13⟩, ⟨.endOfInput, 13, 13⟩] := by
    decide +kernel
  have spaces : Spaces [⟨.identifier "é", 0, 2⟩, ⟨.keyword .is, 3, 5⟩, ⟨.keyword .not, 6, 9⟩,
      ⟨.newline, 11, 12⟩, ⟨.symbol .less, 12, 13⟩, ⟨.endOfInput, 13, 13⟩] 5 [' '] :=
    .blanks (.tail _ (.head _)) (.inr rfl) (by simp [InLineBlanks]; decide)
  have comment : Spaces [⟨.identifier "é", 0, 2⟩, ⟨.keyword .is, 3, 5⟩, ⟨.keyword .not, 6, 9⟩,
      ⟨.newline, 11, 12⟩, ⟨.symbol .less, 12, 13⟩, ⟨.endOfInput, 13, 13⟩] 11 ['#', '='] :=
    .comment (.tail _ (.tail _ (.tail _ (.head _)))) (.inl rfl) rfl (by decide)
  exact ⟨_, tokenized, spaces, comment, tokenize_spaced tokenized spaces,
    tokenize_spaced tokenized comment⟩

end Scriptlet
