import Ecma.Proofs.Gap
import Ecma.Proofs.Kind
import Ecma.Proofs.LineEnd

/-!
# What a scanner carries along

A scanner counts lines, columns and bytes while it moves, and keeps a flag for the start of a line.
What it carries along in this way can be told from the text that it moved over:
`Cursor.Passes.exists_text` says so of a cursor that passes whole line ends, and `Scanner.next_eq`
of a scanner that reads a token.
-/

namespace Ecma

namespace Position

/-! ## The position behind a text -/

/-- The position behind a character that ends the line. -/
def behindLineEnd (p : Position) (c : Char) : Position := ⟨p.line + 1, 0, p.offset + c.utf8Size⟩

/-- The position behind a text. -/
def advance (p : Position) : List Char → Position
  | [] => p
  | '\r' :: '\n' :: cs => advance ⟨p.line + 1, 0, p.offset + 2⟩ cs
  | c :: cs => advance (if isLineTerminator c then p.behindLineEnd c else p.behindChar c) cs

/-- The position behind a text that is taken to stay on the line whatever it holds. -/
def advanceInLine (p : Position) (cs : List Char) : Position := cs.foldl behindChar p

/-- A character that does not start a line end of two characters is moved over on its own. -/
theorem advance_cons (p : Position) {c : Char} {cs : List Char}
    (hc : ¬(c = '\r' ∧ cs.head? = some '\n')) :
    p.advance (c :: cs) =
      (if isLineTerminator c then p.behindLineEnd c else p.behindChar c).advance cs := by
  rw [advance]
  rintro cs' rfl rfl
  exact hc ⟨rfl, rfl⟩

theorem advanceInLine_eq (p : Position) {text : List Char}
    (h : ∀ c ∈ text, isLineTerminator c = false) : p.advanceInLine text = p.advance text := by
  induction text generalizing p with
  | nil => rfl
  | cons c text ih =>
    have hc : isLineTerminator c = false := h c List.mem_cons_self
    rw [advance_cons, hc]
    · exact ih _ fun d hd => h d (List.mem_cons_of_mem c hd)
    · rintro ⟨rfl, -⟩
      cases hc

end Position

namespace Cursor

/-! ## Moving over a text -/

theorem step_lineEnd {k : Cursor} {cs : List Char} (h : k.rest = '\r' :: '\n' :: cs) :
    k.step = ⟨cs, ⟨k.position.line + 1, 0, k.position.offset + 2⟩, true⟩ := by
  obtain ⟨rest, position, lineStart⟩ := k
  obtain rfl : rest = _ := h
  rfl

theorem step_cons {k : Cursor} {c : Char} {cs : List Char} (h : k.rest = c :: cs)
    (hc : ¬(c = '\r' ∧ cs.head? = some '\n')) :
    k.step =
      ⟨cs, if isLineTerminator c then k.position.behindLineEnd c else k.position.behindChar c,
        k.lineStart || isLineTerminator c⟩ := by
  obtain ⟨rest, position, lineStart⟩ := k
  obtain rfl : rest = _ := h
  cases hline : isLineTerminator c with
  | true =>
    simp [step, hline, advance, newline, hc, Position.behindLineEnd, Position.newLine,
      Position.behindChar]
  | false => simp [step, hline, advance]

/-- A cursor that passes a text is at the position behind it, and at the start of a line if it was
before or the text ends one. -/
theorem Passes.exists_text {k k' : Cursor} (h : Passes k k') :
    ∃ text, k.rest = text ++ k'.rest ∧ k'.position = k.position.advance text ∧
      k'.lineStart = (k.lineStart || text.any isLineTerminator) := by
  induction h with
  | refl k => exact ⟨[], rfl, rfl, (Bool.or_false _).symm⟩
  | @step k k' _ ih =>
    obtain ⟨text, hrest, hposition, hline⟩ := ih
    cases hk : k.rest with
    | nil =>
      have hstep : k.step = k := by rw [Cursor.step, hk]
      rw [hstep] at hrest hposition hline
      exact ⟨text, hk ▸ hrest, hposition, hline⟩
    | cons c cs =>
      by_cases hc : c = '\r' ∧ cs.head? = some '\n'
      · obtain ⟨rfl, hhead⟩ := hc
        obtain ⟨cs, rfl⟩ := List.head?_eq_some_iff.1 hhead
        rw [step_lineEnd hk] at hrest hposition hline
        obtain rfl : cs = text ++ k'.rest := hrest
        refine ⟨'\r' :: '\n' :: text, rfl, hposition, ?_⟩
        rw [hline, List.any_cons, Bool.true_or]
        exact (Bool.or_true _).symm
      · rw [step_cons hk hc] at hrest hposition hline
        obtain rfl : cs = text ++ k'.rest := hrest
        refine ⟨c :: text, rfl, ?_, ?_⟩
        · rw [Position.advance_cons]
          · exact hposition
          · rintro ⟨hr, hn⟩
            exact hc ⟨hr, by rw [List.head?_append, hn]; rfl⟩
        · rw [hline, List.any_cons, Bool.or_assoc]

theorem Passes.position_eq {k k' : Cursor} (h : Passes k k') :
    k'.position = k.position.advance (textBefore k.rest k'.rest) := by
  obtain ⟨text, hrest, hposition, -⟩ := h.exists_text
  rw [hposition, hrest, textBefore_append_left]

theorem Passes.lineStart_eq {k k' : Cursor} (h : Passes k k') :
    k'.lineStart = (k.lineStart || (textBefore k.rest k'.rest).any isLineTerminator) := by
  obtain ⟨text, hrest, -, hline⟩ := h.exists_text
  rw [hline, hrest, textBefore_append_left]

/-- A cursor that moves over characters counts them all on the line. -/
theorem advanceBy_eq (k : Cursor) (n : Nat) :
    k.advanceBy n = ⟨k.rest.drop n, k.position.advanceInLine (k.rest.take n), k.lineStart⟩ := by
  induction n generalizing k with
  | zero => rfl
  | succ n ih =>
    rw [advanceBy, ih]
    cases hrest : k.rest with
    | nil => simp [advance, hrest, Position.advanceInLine]
    | cons c cs =>
      rw [rest_advance hrest, position_advance hrest, lineStart_advance]
      rfl

theorem position_advanceTo (k : Cursor) (rest : List Char) :
    (k.advanceTo rest).position = k.position.advanceInLine (textBefore k.rest rest) := by
  rw [advanceTo, advanceBy_eq]
  rfl

/-! ## Skipping trivia -/

/-- A block comment is passed from its opening mark on. -/
theorem passes_blockComment {k : Cursor} {c : Char} {cs : List Char} {atStart lineStart : Bool}
    (h : k.rest = c :: cs) (hstart : triviaStart atStart lineStart (c :: cs) = .blockComment) :
    Passes k (k.advance.advance.skipBlock false).2 := by
  obtain ⟨rfl, body, rfl⟩ := describes_of_triviaStart_eq hstart
  exact .advance h rfl (.advance (rest_advance h) rfl (passes_skipBlock false _))

/-- Skipping passes whole line ends, up to the next token and, where that is an unclosed comment, up
to the end of the source. -/
theorem passes_skipTrivia (newline : Bool) (k : Cursor) :
    Passes k (k.skipTrivia newline).start ∧
      Passes (k.skipTrivia newline).start (k.skipTrivia newline).stop := by
  fun_induction skipTrivia newline k with
  | case1 newline k => exact ⟨.refl k, .refl k⟩
  | case2 newline k => exact ⟨.refl k, .refl k⟩
  | case3 newline k c cs h hstart ih =>
    have hc : isBlank c = true := describes_of_triviaStart_eq hstart
    exact ⟨.advance h (isLineTerminator_of_isBlank hc) ih.1, ih.2⟩
  | case4 newline k c cs h _ ih => exact ⟨.step ih.1, ih.2⟩
  | case5 newline k c cs h _ ih => exact ⟨(passes_skipLine k).trans ih.1, ih.2⟩
  | case6 newline k c cs h hstart stop hblock =>
    have hpasses := passes_blockComment h hstart
    rw [hblock] at hpasses
    exact ⟨.refl k, hpasses⟩
  | case7 newline k c cs h hstart crossed k' hblock ih =>
    have hpasses := passes_blockComment h hstart
    rw [hblock] at hpasses
    exact ⟨hpasses.trans ih.1, ih.2⟩

/-- Behind a carriage return and a line feed, skipping goes on as between the two. -/
theorem skipTrivia_afterLineTerminator (lineStart : Bool) (c : Char) (cs : List Char) :
    Ecma.skipTrivia lineStart false true (afterLineTerminator c cs) =
      Ecma.skipTrivia lineStart false true cs := by
  unfold afterLineTerminator
  split
  · split
    · rw [Ecma.skipTrivia]
      rfl
    · rfl
  · rfl

/-- From a cursor, trivia is skipped as its text says. -/
theorem trivia_skipTrivia {lineStart newline : Bool} {k : Cursor}
    (hline : k.lineStart = (lineStart || newline)) :
    (k.skipTrivia newline).trivia =
        Ecma.skipTrivia lineStart (k.position.offset == 0) newline k.rest ∧
      ∀ newline' k', k.skipTrivia newline = .gap newline' k' →
        k'.lineStart = (lineStart || newline') := by
  -- Once something was skipped, the source has started.
  have hbehind : ∀ {k k' : Cursor} {c : Char} {cs : List Char}, k.rest = c :: cs → Passes k k' →
      k'.rest <:+ cs → (k'.position.offset == 0) = false := fun h hpasses hs =>
    beq_eq_false_iff_ne.2 (Nat.ne_of_gt (hpasses.offset_pos h hs))
  fun_induction skipTrivia newline k with
  | case1 newline k h =>
    rw [h, Ecma.skipTrivia, Skipped.trivia, h]
    refine ⟨rfl, fun newline' k' heq => ?_⟩
    obtain ⟨rfl, rfl⟩ := Skipped.gap.inj heq
    exact hline
  | case2 newline k c cs h hstart =>
    rw [h, Ecma.skipTrivia, ← hline, hstart, Skipped.trivia, h]
    refine ⟨rfl, fun newline' k' heq => ?_⟩
    obtain ⟨rfl, rfl⟩ := Skipped.gap.inj heq
    exact hline
  | case3 newline k c cs h hstart ih =>
    have hc : isBlank c = true := describes_of_triviaStart_eq hstart
    have hoffset := hbehind h (.advance h (isLineTerminator_of_isBlank hc) (.refl _))
      (rest_advance h ▸ List.suffix_rfl)
    rw [h, Ecma.skipTrivia, ← hline, hstart]
    rw [hoffset, rest_advance h] at ih
    exact ih ((lineStart_advance k).trans hline)
  | case4 newline k c cs h hstart ih =>
    have hc : isLineTerminator c = true := describes_of_triviaStart_eq hstart
    have hoffset := hbehind h (.step (.refl _)) (rest_step_suffix h)
    rw [h, Ecma.skipTrivia, ← hline, hstart]
    rw [hoffset, rest_step h, skipTrivia_afterLineTerminator] at ih
    exact ih (by rw [lineStart_step h, hc, Bool.or_true, Bool.or_true])
  | case5 newline k c cs h hstart ih =>
    have hoffset := hbehind h (passes_skipLine k) (rest_skipLine_suffix h hstart)
    rw [h, Ecma.skipTrivia, ← hline, hstart]
    rw [hoffset, rest_skipLine, h, dropLine_cons (isLineTerminator_of_lineComment hstart)] at ih
    exact ih ((lineStart_skipLine k).trans hline)
  | case6 newline k c cs h hstart stop hblock =>
    have hend := (skipBlock_eq false k.advance.advance).2
    rw [hblock, rest_advance_eq, rest_advance h] at hend
    rw [h, Ecma.skipTrivia, ← hline, hstart, Skipped.trivia, h]
    refine ⟨?_, fun newline' k' heq => by cases heq⟩
    dsimp only
    split
    · rfl
    · rename_i crossed rest hsome
      cases (hend crossed rest hsome).1
  | case7 newline k c cs h hstart crossed k' hblock ih =>
    have hend := skipBlock_eq false k.advance.advance
    have hoffset : (k'.position.offset == 0) = false := by
      have hpasses := passes_blockComment h hstart
      have hsuffix := rest_skipBlock_suffix h false
      rw [hblock] at hpasses hsuffix
      exact hbehind h hpasses hsuffix
    rw [hblock, rest_advance_eq, rest_advance h] at hend
    rw [h, Ecma.skipTrivia, ← hline, hstart]
    rw [hoffset] at ih
    dsimp only
    split
    · rename_i hnone
      cases hend.1 hnone
    · rename_i crossed' rest hsome
      obtain ⟨hcrossed, hrest, hbehind⟩ := hend.2 crossed' rest hsome
      obtain rfl : crossed = crossed' := Option.some.inj hcrossed
      rw [lineStart_advance, lineStart_advance, hline, Bool.or_assoc] at hbehind
      rw [← hrest]
      exact ih hbehind

end Cursor

/-! ## Reading a token -/

namespace Scanner

/-- The position behind a token. Text that was refused as the escape of an identifier is taken to
stay on its line. -/
def positionBehind (p : Position) (kind : TokenKind) (raw : List Char) : Position :=
  if kind = .invalid .identifierEscape then p.advanceInLine raw else p.advance raw

/-- Whether the line is still without a token behind this one: a token that ends on another line
than it starts on leaves the new line without one. -/
def lineStartBehind (before : Bool) (kind : TokenKind) (raw : List Char) : Bool :=
  match kind with
  | .endOfSource => before
  | .invalid _ => false
  | _ => raw.any isLineTerminator

/-- The token for a comment that the source does not close; it takes all that is left. -/
def finishUnclosed (s : Scanner) (comment : List Char) : Token × Scanner :=
  let start := s.position.advance (textBefore s.rest comment)
  (⟨.invalid .unterminatedComment, String.ofList comment, start, true⟩,
    { s with rest := [], position := start.advance comment, lineStart := false })

/-- The token behind a gap, which may hold a line terminator. -/
def finishGap (s : Scanner) (goal : Goal) (newline : Bool) (rest : List Char) : Token × Scanner :=
  let start := s.position.advance (textBefore s.rest rest)
  let l := lex s.strict goal s.nesting rest
  let raw := textBefore rest l.rest
  (⟨l.kind, String.ofList raw, start, newline⟩,
    { s with
      rest := l.rest
      position := positionBehind start l.kind raw
      lineStart := lineStartBehind (s.lineStart || newline) l.kind raw
      nesting := l.nesting })

theorem takeUnclosed_eq {s : Scanner} {start stop : Cursor}
    (h : s.skipTrivia false = .unclosed start stop) :
    s.takeUnclosed start stop = s.finishUnclosed start.rest := by
  obtain ⟨hpasses, hcomment⟩ := Cursor.passes_skipTrivia false s.toCursor
  rw [h] at hpasses hcomment
  have hrest : stop.rest = [] := Cursor.rest_unclosed h
  have hstart : start.position = s.position.advance (textBefore s.rest start.rest) :=
    hpasses.position_eq
  have hstop : stop.position = start.position.advance start.rest := by
    rw [← textBefore_nil start.rest, ← hrest]
    exact hcomment.position_eq
  rw [takeUnclosed, finishUnclosed, ← hstart, ← hstop, hrest, textBefore_nil]

/-- The position behind a token is told by its kind and its text. -/
theorem position_lex (strict : Bool) (goal : Goal) (n : Nesting) {k : Cursor}
    (hk : ∀ c ∈ k.rest.head?, isLineTerminator c = false) :
    (k.lex strict goal n).rest.position =
      positionBehind k.position (k.lex strict goal n).kind
        (textBefore k.rest (k.lex strict goal n).rest.rest) := by
  cases hrest : k.rest with
  | nil =>
    rw [Cursor.lex_nil hrest, hrest]
    rfl
  | cons c cs =>
    have htakes := Cursor.takes_lex strict goal n hrest (hk c (by rw [hrest]; rfl))
    rw [← hrest]
    generalize k.lex strict goal n = l at htakes ⊢
    cases htakes with
    | inLine hline hpasses =>
      obtain ⟨front, hfront, hno⟩ := hline.exists_front
      have hposition := hpasses.position_eq
      rw [hfront, textBefore_append_left] at hposition ⊢
      unfold positionBehind
      split
      · rwa [Position.advanceInLine_eq _ hno]
      · exact hposition
    | lines hkind hpasses =>
      rw [positionBehind, if_neg hkind]
      exact hpasses.position_eq
    | @backslash tail hkind hline hmove =>
      have hsuffix : tail.drop 1 <:+ ({ k with lineStart := false } : Cursor).rest :=
        ((List.drop_suffix 1 tail).trans (List.suffix_cons _ tail)).trans hline.cleanCut.suffix
      rw [positionBehind, if_pos hkind, hmove, Cursor.rest_advanceTo hsuffix]
      exact Cursor.position_advanceTo _ _

theorem lineStartBehind_eq {before : Bool} {kind : TokenKind} {raw : List Char}
    (h : kind ≠ .endOfSource) :
    lineStartBehind before kind raw = (!kind.isInvalid && raw.any isLineTerminator) := by
  unfold lineStartBehind
  split
  · exact absurd rfl h
  · rfl
  · rename_i hinvalid
    have hkind : kind.isInvalid = false := by
      cases kind with
      | invalid complaint => exact absurd rfl (hinvalid complaint)
      | _ => rfl
    rw [hkind, Bool.not_false, Bool.true_and]

/-- Whether the line has a token behind a token is told by its kind and its text. -/
theorem lineStart_lex (strict : Bool) (goal : Goal) (n : Nesting) {k : Cursor}
    (hk : ∀ c ∈ k.rest.head?, isLineTerminator c = false) :
    (!(k.lex strict goal n).kind.isInvalid && (k.lex strict goal n).rest.lineStart) =
      lineStartBehind k.lineStart (k.lex strict goal n).kind
        (textBefore k.rest (k.lex strict goal n).rest.rest) := by
  cases hrest : k.rest with
  | nil =>
    rw [Cursor.lex_nil hrest]
    rfl
  | cons c cs =>
    have hkind := kind_lex_ne strict goal n c cs
    have htakes := Cursor.takes_lex strict goal n hrest (hk c (by rw [hrest]; rfl))
    rw [← hrest, ← Cursor.kind_lex] at hkind
    rw [lineStartBehind_eq hkind, ← hrest]
    generalize k.lex strict goal n = l at htakes ⊢
    cases htakes with
    | inLine _ hpasses => rw [hpasses.lineStart_eq, Bool.false_or]
    | lines _ hpasses => rw [hpasses.lineStart_eq, Bool.false_or]
    | backslash hinvalid => rw [hinvalid, TokenKind.isInvalid, Bool.not_true, Bool.false_and]; rfl

theorem takeToken_eq {s : Scanner} (goal : Goal) {newline : Bool} {k : Cursor}
    (h : s.skipTrivia false = .gap newline k) :
    s.takeToken goal newline k = s.finishGap goal newline k.rest := by
  have hpasses := (Cursor.passes_skipTrivia false s.toCursor).1
  have htrivia := Cursor.trivia_skipTrivia (Bool.or_false s.lineStart).symm
  rw [h] at hpasses htrivia
  have hstart : k.position = s.position.advance (textBefore s.rest k.rest) :=
    hpasses.position_eq
  have hline : k.lineStart = (s.lineStart || newline) := htrivia.2 newline k rfl
  have hhead := head_skipTrivia htrivia.1.symm
  simp only [takeToken, finishGap, ← hstart, ← hline, ← Cursor.kind_lex, ← Cursor.rest_lex,
    ← Cursor.nesting_lex, ← position_lex s.strict goal s.nesting hhead,
    ← lineStart_lex s.strict goal s.nesting hhead]
  split
  · rename_i hinvalid
    rw [hinvalid]
    rfl
  · rename_i hvalid
    rw [Bool.eq_false_iff.2 hvalid]
    rfl

/-- A call gives the token that the text behind the gap says, and counts and remembers what the text
that it moved over says. -/
theorem next_eq (goal : Goal) (s : Scanner) :
    s.next goal =
      match skipTrivia s.lineStart (s.position.offset == 0) false s.rest with
      | .unclosed comment => s.finishUnclosed comment
      | .gap newline rest => s.finishGap goal newline rest := by
  have htrivia := (Cursor.trivia_skipTrivia (Bool.or_false s.lineStart).symm).1
  rw [← htrivia, next]
  cases hskip : s.skipTrivia false with
  | gap newline k => exact takeToken_eq goal hskip
  | unclosed start stop => exact takeUnclosed_eq hskip

theorem next_of_gap {goal : Goal} {s : Scanner} {newline : Bool} {rest : List Char}
    (h : skipTrivia s.lineStart (s.position.offset == 0) false s.rest = .gap newline rest) :
    s.next goal = s.finishGap goal newline rest := by
  rw [next_eq, h]

/-- A valid token is behind a gap. -/
theorem exists_gap {goal : Goal} {s : Scanner} (h : (s.next goal).1.kind.isInvalid = false) :
    ∃ newline rest,
      skipTrivia s.lineStart (s.position.offset == 0) false s.rest = .gap newline rest := by
  rw [next_eq] at h
  split at h
  · cases h
  · exact ⟨_, _, ‹_›⟩

end Scanner

end Ecma
