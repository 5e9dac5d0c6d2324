import Scriptlet.Proofs.Token.Cut

/-!
Contract: the tokens of a text say all of it but its layout, and are as long as they
can be.

Owns:
- what stands in a text from a byte offset on, which is one text at most;
- the tokens of a whole text as cuts, one after another;
- that cutting a text is lossless: where its tokens stand, what they are spelled by,
  what stands between them, and where line feeds are tokens;
- that no token could be longer.

Byte offsets count the UTF-8 form, so an offset of a token is one between two
characters.
-/

namespace Scriptlet

open Text

/-! ## Byte offsets -/

namespace Text

theorem byteLength_toList (source : String) : byteLength source.toList = source.utf8ByteSize := by
  have sized : ∀ chars : List Char, byteLength chars = (String.ofList chars).utf8ByteSize := by
    intro chars
    induction chars with
    | nil => rfl
    | cons char rest inductionHypothesis =>
        rw [byteLength_cons, inductionHypothesis, String.ofList_cons, String.utf8ByteSize_append,
          String.utf8ByteSize_singleton]
  rw [sized, String.ofList_toList]

end Text

/-- Whether a text is what stands in a source from a byte offset on. -/
def RestFrom (source : String) (position : Nat) (rest : List Char) : Prop :=
  ∃ before, source.toList = before ++ rest ∧ byteLength before = position

/-- Whether a text is what stands in a source between two byte offsets. -/
def Slice (source : String) (start stop : Nat) (text : List Char) : Prop :=
  ∃ later, RestFrom source start (text ++ later) ∧ start + byteLength text = stop

/-- Whether layout stands in a source between two byte offsets. -/
def LayoutBetween (source : String) (start stop : Nat) : Prop :=
  ∃ gap later, RestFrom source start (gap ++ later) ∧ start + byteLength gap = stop ∧
    Layout later gap

variable {source : String} {position : Nat} {text rest : List Char}

theorem restFrom_zero (source : String) : RestFrom source 0 source.toList :=
  ⟨[], rfl, rfl⟩

theorem RestFrom.advance (stands : RestFrom source position (text ++ rest)) :
    RestFrom source (position + byteLength text) rest := by
  obtain ⟨before, isSource, isPosition⟩ := stands
  refine ⟨before ++ text, ?_, ?_⟩
  · rw [isSource, List.append_assoc]
  · rw [byteLength_append, isPosition]

/-- A byte offset splits a text in one way, since every character takes bytes. -/
theorem RestFrom.unique {other : List Char} (stands : RestFrom source position rest)
    (standsToo : RestFrom source position other) : rest = other := by
  obtain ⟨before, isSource, isPosition⟩ := stands
  obtain ⟨otherBefore, isSourceToo, isPositionToo⟩ := standsToo
  have same : before ++ rest = otherBefore ++ other := isSource.symm.trans isSourceToo
  have sameLength : byteLength before = byteLength otherBefore :=
    isPosition.trans isPositionToo.symm
  rcases List.append_eq_append_iff.mp same with ⟨between, rfl, rfl⟩ | ⟨between, rfl, rfl⟩
  all_goals
    rw [byteLength_append] at sameLength
    have none : between = [] := byteLength_eq_zero_iff.mp (by omega)
    rw [none, List.nil_append]

theorem RestFrom.position_of_nil (stands : RestFrom source position []) :
    position = source.utf8ByteSize := by
  obtain ⟨before, isSource, isPosition⟩ := stands
  rw [← byteLength_toList, isSource, List.append_nil, isPosition]

/-! ## Cuts -/

/-- Whether a text at a cursor is cut into tokens up to its end. -/
inductive Cuts : Cursor → List Token → Prop where
  | last {cursor next : Cursor} {token : Token} {gap lexeme : List Char}
      (cut : Cut cursor token next gap lexeme) (isEnd : token.kind = .endOfInput) :
      Cuts cursor [token]
  | more {cursor next : Cursor} {token : Token} {gap lexeme : List Char} {tokens : List Token}
      (cut : Cut cursor token next gap lexeme) (notEnd : token.kind ≠ .endOfInput)
      (later : Cuts next tokens) : Cuts cursor (token :: tokens)

theorem cuts_of_scanAll {features : FeatureSet} {cursor : Cursor}
    (finished : (scanAll features cursor).failure = none) :
    Cuts cursor (scanAll features cursor).tokens := by
  fun_induction scanAll features cursor with
  | case1 => cases finished
  | case2 cursor token next scanned atEnd =>
      obtain ⟨gap, lexeme, cut⟩ := exists_cut_of_scan scanned
      exact .last cut atEnd
  | case3 cursor token next scanned notEnd inductionHypothesis =>
      obtain ⟨gap, lexeme, cut⟩ := exists_cut_of_scan scanned
      exact .more cut notEnd (inductionHypothesis finished)

/-- Whether what is left at a cursor is what stands in a source from there on. -/
def Cursor.LiesIn (cursor : Cursor) (source : String) : Prop :=
  RestFrom source cursor.position cursor.rest

section

variable {cursor next : Cursor} {token : Token} {gap lexeme : List Char} {tokens : List Token}

/-- Where the lexeme of a token stands. -/
theorem Cut.restFrom_start (cut : Cut cursor token next gap lexeme)
    (lies : cursor.LiesIn source) : RestFrom source token.start (lexeme ++ next.rest) := by
  have stands : RestFrom source cursor.position (gap ++ (lexeme ++ next.rest)) := by
    rw [← List.append_assoc, ← cut.text]
    exact lies
  rw [cut.start]
  exact stands.advance

theorem Cut.liesIn (cut : Cut cursor token next gap lexeme) (lies : cursor.LiesIn source) :
    next.LiesIn source := by
  rw [Cursor.LiesIn, cut.position, cut.stop]
  exact (cut.restFrom_start lies).advance

/-- The tokens after some others are cut from what is left after those. -/
theorem Cuts.append {front : List Token} (cuts : Cuts cursor (front ++ tokens))
    (some : tokens ≠ []) (lies : cursor.LiesIn source) :
    ∃ here : Cursor, here.LiesIn source ∧ Cuts here tokens := by
  induction front generalizing cursor with
  | nil => exact ⟨cursor, lies, cuts⟩
  | cons first front inductionHypothesis =>
      generalize whole : first :: front ++ tokens = all at cuts
      cases cuts with
      | last cut isEnd => simp [some] at whole
      | more cut notEnd later =>
          cases whole
          exact inductionHypothesis later (cut.liesIn lies)

/-- A token that has others after it is cut off in front of those. -/
theorem Cuts.first (cuts : Cuts cursor (token :: tokens)) :
    ∃ (next : Cursor) (gap lexeme : List Char), Cut cursor token next gap lexeme ∧
      (tokens ≠ [] → token.kind ≠ .endOfInput ∧ Cuts next tokens) := by
  cases cuts with
  | last cut => exact ⟨_, _, _, cut, fun some => absurd rfl some⟩
  | more cut notEnd later => exact ⟨_, _, _, cut, fun _ => ⟨notEnd, later⟩⟩

/-- A token is cut from somewhere in the text. -/
theorem Cuts.exists_cut_of_mem (cuts : Cuts cursor tokens) (lies : cursor.LiesIn source)
    (member : token ∈ tokens) :
    ∃ (here next : Cursor) (gap lexeme : List Char),
      here.LiesIn source ∧ Cut here token next gap lexeme := by
  obtain ⟨front, later, rfl⟩ := List.append_of_mem member
  obtain ⟨here, hereLies, cuts⟩ := cuts.append (List.cons_ne_nil _ _) lies
  obtain ⟨next, gap, lexeme, cut, _⟩ := cuts.first
  exact ⟨here, next, gap, lexeme, hereLies, cut⟩

/-- Tokens in a row are cut one after another from somewhere in the text. -/
theorem Cuts.exists_of_infix {row : List Token} (cuts : Cuts cursor tokens)
    (lies : cursor.LiesIn source) (inRow : row <:+: tokens) (some : row ≠ []) :
    ∃ (here : Cursor) (later : List Token), here.LiesIn source ∧ Cuts here (row ++ later) := by
  obtain ⟨front, later, rfl⟩ := inRow
  rw [List.append_assoc] at cuts
  obtain ⟨here, hereLies, cuts⟩ := cuts.append (by simp [some]) lies
  exact ⟨here, later, hereLies, cuts⟩

/-- Neighbours are cut one after the other from somewhere in the text. -/
theorem Cuts.exists_cuts_of_pair {first second : Token} (cuts : Cuts cursor tokens)
    (lies : cursor.LiesIn source) (inRow : [first, second] <:+: tokens) :
    ∃ (here middle next : Cursor) (gap lexeme nextGap nextLexeme : List Char),
      here.LiesIn source ∧ Cut here first middle gap lexeme ∧ first.kind ≠ .endOfInput ∧
        Cut middle second next nextGap nextLexeme := by
  obtain ⟨here, later, hereLies, cuts⟩ := cuts.exists_of_infix lies inRow (List.cons_ne_nil _ _)
  obtain ⟨middle, gap, lexeme, cut, after⟩ := Cuts.first cuts
  obtain ⟨notEnd, cuts⟩ := after (List.cons_ne_nil _ _)
  obtain ⟨next, nextGap, nextLexeme, nextCut, _⟩ := Cuts.first cuts
  exact ⟨here, middle, next, gap, lexeme, nextGap, nextLexeme, hereLies, cut, notEnd, nextCut⟩

/-- The gap of a token is layout between what was read before and the token. -/
theorem Cut.layoutBetween (cut : Cut cursor token next gap lexeme)
    (lies : cursor.LiesIn source) : LayoutBetween source cursor.position token.start := by
  refine ⟨gap, lexeme ++ next.rest, ?_, cut.start.symm, cut.layout⟩
  rw [← List.append_assoc, ← cut.text]
  exact lies

theorem Cut.start_lt_stop (cut : Cut cursor token next gap lexeme)
    (notEnd : token.kind ≠ .endOfInput) : token.start < token.stop := by
  have some : byteLength lexeme ≠ 0 := mt byteLength_eq_zero_iff.mp (cut.nonempty notEnd)
  have stop := cut.stop
  omega

/-- The tokens of a text end with its end, and hold no other one. -/
theorem Cuts.ends (cuts : Cuts cursor tokens) (lies : cursor.LiesIn source) :
    ∃ front, tokens = front ++ [⟨.endOfInput, source.utf8ByteSize, source.utf8ByteSize⟩] ∧
      ∀ token ∈ front, token.kind ≠ .endOfInput := by
  induction cuts with
  | @last cursor next token gap lexeme cut isEnd =>
      have stands := cut.restFrom_start lies
      have isStop := cut.stop
      obtain ⟨kind, start, stop⟩ := token
      cases isEnd
      have nothing : lexeme = [] := cut.spelled
      rw [nothing, cut.last rfl] at stands
      have isSize : start = source.utf8ByteSize := stands.position_of_nil
      have isStart : stop = start := by simpa [nothing] using isStop
      exact ⟨[], by rw [isStart, isSize, List.nil_append], nofun⟩
  | more cut notEnd _ inductionHypothesis =>
      obtain ⟨front, rfl, noEnd⟩ := inductionHypothesis (cut.liesIn lies)
      exact ⟨_ :: front, rfl, List.forall_mem_cons.mpr ⟨notEnd, noEnd⟩⟩

theorem Cuts.position_le_start (cuts : Cuts cursor tokens) (member : token ∈ tokens) :
    cursor.position ≤ token.start := by
  induction cuts with
  | last cut =>
      cases List.mem_singleton.mp member
      have start := cut.start
      omega
  | more cut notEnd _ inductionHypothesis =>
      have start := cut.start
      have stop := cut.stop
      have position := cut.position
      rcases List.mem_cons.mp member with rfl | member
      · omega
      · have later := inductionHypothesis member
        omega

theorem Cuts.ordered (cuts : Cuts cursor tokens) :
    tokens.Pairwise fun first second => first.stop ≤ second.start := by
  induction cuts with
  | last => exact List.pairwise_singleton _ _
  | more cut _ later inductionHypothesis =>
      refine .cons (fun second member => ?_) inductionHypothesis
      rw [← cut.position]
      exact later.position_le_start member

end

/-! ## Lossless cutting -/

/-- Whether tokens say all of a source but its layout, in order, each as long as it
can be. -/
structure Lossless (source : String) (tokens : List Token) : Prop where
  /-- The end of input is the last token, at the end of the source, and no other one. -/
  ends : ∃ front, tokens = front ++ [⟨.endOfInput, source.utf8ByteSize, source.utf8ByteSize⟩] ∧
    ∀ token ∈ front, token.kind ≠ .endOfInput
  ordered : tokens.Pairwise fun first second => first.stop ≤ second.start
  nonempty : ∀ token ∈ tokens, token.kind ≠ .endOfInput → token.start < token.stop
  spelled : ∀ token ∈ tokens,
    ∃ text, Slice source token.start token.stop text ∧ token.kind.SpelledBy text
  opening : ∀ token ∈ tokens.head?, LayoutBetween source 0 token.start
  gaps : ∀ first second, [first, second] <:+: tokens →
    LayoutBetween source first.stop second.start
  single : ∀ first second, [first, second] <:+: tokens → first.kind = .newline →
    second.kind ≠ .newline
  /-- Between neighbours that are no line feeds, one line feed is a token exactly if
  there is any. -/
  lines : ∀ first between second, first :: (between ++ [second]) <:+: tokens →
    first.kind ≠ .newline → second.kind ≠ .newline →
    (∀ token ∈ between, token.kind = .newline) →
    ∃ text, Slice source first.stop second.start text ∧
      (between.length = 1 ↔ '\n' ∈ text)
  maximal : ∀ token ∈ tokens, ∀ later, RestFrom source token.stop later →
    token.kind.MayPrecede later
  isNot : ∀ token ∈ tokens, token.kind = .keyword .is → ∀ text,
    RestFrom source token.start text → ¬ StartsIsNot text

section

variable {cursor : Cursor} {tokens : List Token}

/-- Between neighbours, a line feed that is a token is the first of any. -/
theorem Cuts.lines {first second : Token} {between later : List Token}
    (cuts : Cuts cursor (first :: (between ++ [second]) ++ later)) (lies : cursor.LiesIn source)
    (other : first.kind ≠ .newline)
    (allNewlines : ∀ token ∈ between, token.kind = .newline) :
    ∃ text, Slice source first.stop second.start text ∧
      (between.length = 1 ↔ '\n' ∈ text) := by
  obtain ⟨middle, gap, lexeme, cut, after⟩ := Cuts.first cuts
  obtain ⟨notEnd, cuts⟩ := after (by simp)
  have lies := cut.liesIn lies
  have quiet : middle.afterNewline = false :=
    Bool.eq_false_iff.mpr (mt (cut.afterNewline notEnd).mp other)
  rw [← cut.position]
  cases between with
  | nil =>
      obtain ⟨next, gap, lexeme, cut, _⟩ := Cuts.first cuts
      have noNewline : '\n' ∉ gap := cut.quiet quiet
      refine ⟨gap, ⟨lexeme ++ next.rest, ?_, cut.start.symm⟩, by simp [noNewline]⟩
      rw [← List.append_assoc, ← cut.text]
      exact lies
  | cons newline others =>
      have isNewline : newline.kind = .newline := allNewlines newline List.mem_cons_self
      obtain ⟨next, newlineGap, lineFeed, newlineCut, after⟩ := Cuts.first cuts
      obtain ⟨newlineNotEnd, cuts⟩ := after (by simp)
      have isAfter : next.afterNewline = true :=
        (newlineCut.afterNewline newlineNotEnd).mpr isNewline
      cases others with
      | cons other others =>
          obtain ⟨_, _, _, otherCut, _⟩ := Cuts.first cuts
          exact absurd (allNewlines other (by simp)) (otherCut.alternates isAfter)
      | nil =>
          obtain ⟨last, gap, lexeme, cut, _⟩ := Cuts.first cuts
          have spelled := newlineCut.spelled
          rw [isNewline] at spelled
          have isLineFeed : lineFeed = ['\n'] := spelled
          refine ⟨newlineGap ++ lineFeed ++ gap, ⟨lexeme ++ last.rest, ?_, ?_⟩, ?_⟩
          · have isRest : middle.rest =
                newlineGap ++ lineFeed ++ gap ++ (lexeme ++ last.rest) := by
              rw [newlineCut.text, cut.text]
              simp only [List.append_assoc]
            exact isRest ▸ lies
          · simp only [byteLength_append, cut.start, newlineCut.position, newlineCut.stop,
              newlineCut.start]
            omega
          · simp [isLineFeed]

end

/-- A text that is cut into tokens without failure is cut without loss. -/
theorem tokenize_is_lossless {features : FeatureSet} {source : String} {tokens : List Token}
    (tokenized : tokenize features source = .ok tokens) : Lossless source tokens := by
  have cuts : Cuts (Cursor.start source) tokens := by
    obtain ⟨finished, rfl⟩ := tokenize_eq_ok_iff.mp tokenized
    exact cuts_of_scanAll finished
  have lies : (Cursor.start source).LiesIn source := restFrom_zero source
  refine
    { ends := cuts.ends lies
      ordered := cuts.ordered
      nonempty := fun token member => ?_
      spelled := fun token member => ?_
      opening := ?_
      gaps := fun first second inRow => ?_
      single := fun first second inRow isNewline => ?_
      lines := fun first between second inRow other _ => ?_
      maximal := fun token member later stands => ?_
      isNot := fun token member isIs text stands => ?_ }
  · obtain ⟨_, _, _, _, _, cut⟩ := cuts.exists_cut_of_mem lies member
    exact cut.start_lt_stop
  · obtain ⟨here, next, gap, lexeme, hereLies, cut⟩ := cuts.exists_cut_of_mem lies member
    exact ⟨lexeme, ⟨next.rest, cut.restFrom_start hereLies, cut.stop.symm⟩, cut.spelled⟩
  · cases tokens with
    | nil => exact nofun
    | cons token tokens =>
        rintro _ ⟨⟩
        obtain ⟨_, _, _, cut, _⟩ := cuts.first
        exact cut.layoutBetween lies
  · obtain ⟨_, _, _, _, _, _, _, hereLies, cut, _, nextCut⟩ :=
      cuts.exists_cuts_of_pair lies inRow
    rw [← cut.position]
    exact nextCut.layoutBetween (cut.liesIn hereLies)
  · obtain ⟨_, _, _, _, _, _, _, _, cut, notEnd, nextCut⟩ :=
      cuts.exists_cuts_of_pair lies inRow
    exact nextCut.alternates ((cut.afterNewline notEnd).mpr isNewline)
  · obtain ⟨here, later, hereLies, cuts⟩ := cuts.exists_of_infix lies inRow (List.cons_ne_nil _ _)
    exact cuts.lines hereLies other
  · obtain ⟨here, next, gap, lexeme, hereLies, cut⟩ := cuts.exists_cut_of_mem lies member
    have isNext : RestFrom source token.stop next.rest := cut.position ▸ cut.liesIn hereLies
    rw [stands.unique isNext]
    exact cut.apart
  · obtain ⟨here, next, gap, lexeme, hereLies, cut⟩ := cuts.exists_cut_of_mem lies member
    rw [stands.unique (cut.restFrom_start hereLies)]
    exact cut.isNot isIs

/-- A run of line feeds with comments in it, names and comments of more bytes than
characters, and the words `is not` with and without a longer word. -/
theorem tokenize_is_lossless_commentedLines :
    tokenize FeatureSet.none "é is not1 # ü\n\n#\n x is not <12" =
      .ok [⟨.identifier "é", 0, 2⟩, ⟨.keyword .is, 3, 5⟩, ⟨.identifier "not1", 6, 10⟩,
        ⟨.newline, 15, 16⟩, ⟨.identifier "x", 20, 21⟩, ⟨.keyword .isNot, 22, 28⟩,
        ⟨.symbol .less, 29, 30⟩, ⟨.integer 12, 30, 32⟩, ⟨.endOfInput, 32, 32⟩] ∧
    Lossless "é is not1 # ü\n\n#\n x is not <12"
      [⟨.identifier "é", 0, 2⟩, ⟨.keyword .is, 3, 5⟩, ⟨.identifier "not1", 6, 10⟩,
        ⟨.newline, 15, 16⟩, ⟨.identifier "x", 20, 21⟩, ⟨.keyword .isNot, 22, 28⟩,
        ⟨.symbol .less, 29, 30⟩, ⟨.integer 12, 30, 32⟩, ⟨.endOfInput, 32, 32⟩] := by
  have tokenized : tokenize FeatureSet.none "é is not1 # ü\n\n#\n x is not <12" =
      .ok [⟨.identifier "é", 0, 2⟩, ⟨.keyword .is, 3, 5⟩, ⟨.identifier "not1", 6, 10⟩,
        ⟨.newline, 15, 16⟩, ⟨.identifier "x", 20, 21⟩, ⟨.keyword .isNot, 22, 28⟩,
        ⟨.symbol .less, 29, 30⟩, ⟨.integer 12, 30, 32⟩, ⟨.endOfInput, 32, 32⟩] := by
    decide +kernel
  exact ⟨tokenized, tokenize_is_lossless tokenized⟩

end Scriptlet
