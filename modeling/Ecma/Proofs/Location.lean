import Ecma.Proofs.LineEnd
import Ecma.Proofs.Spacing
import Mathlib.Data.List.DropRight
import Mathlib.Data.String.Basic

/-!
# Where tokens are

The line, the column and the offset of a token are those of the text before it: `Position.behind`
counts line ends and characters of a whole text, and moving over a text piece by piece comes to the
same as long as no piece ends inside a line end. All tokens are where they say, until a name takes a
line end behind a backslash. From then on, lines are missing: one for each such token
(`Scanner.tokensAfter_lags`).
-/

namespace Ecma

/-- Whether a character ends a line, given the character behind it: a carriage return leaves that to
a line feed right behind it. -/
def endsLine (c : Char) (next : Option Char) : Bool :=
  isLineTerminator c && !(c == '\r' && next == some '\n')

/-- The number of line ends in a text. -/
def lineEnds : List Char → Nat
  | [] => 0
  | c :: cs => (if endsLine c cs.head? then 1 else 0) + lineEnds cs

/-- The characters behind the last line terminator of a text. -/
def lastLine (text : List Char) : List Char := text.rtakeWhile fun c => !isLineTerminator c

theorem endsLine_eq {c : Char} {next : Option Char} (h : ¬(c = '\r' ∧ next = some '\n')) :
    endsLine c next = isLineTerminator c := by
  rw [endsLine]
  by_cases hr : c = '\r'
  · have hn : next ≠ some '\n' := fun hn => h ⟨hr, hn⟩
    simp [hn]
  · simp [hr]

theorem lineEnds_cons {c : Char} {cs : List Char} (hc : ¬(c = '\r' ∧ cs.head? = some '\n')) :
    lineEnds (c :: cs) = (if isLineTerminator c then 1 else 0) + lineEnds cs := by
  rw [lineEnds, endsLine_eq hc]

theorem lineEnds_lineEnd (cs : List Char) : lineEnds ('\r' :: '\n' :: cs) = 1 + lineEnds cs := by
  have hr : endsLine '\r' (some '\n') = false := by decide
  have hn : endsLine '\n' cs.head? = true := rfl
  simp [lineEnds, hr, hn]

theorem lineEnds_append {front back : List Char}
    (h : ¬(front.getLast? = some '\r' ∧ back.head? = some '\n')) :
    lineEnds (front ++ back) = lineEnds front + lineEnds back := by
  induction front with
  | nil => exact (Nat.zero_add _).symm
  | cons c front ih =>
    cases front with
    | nil =>
      have hc : ¬(c = '\r' ∧ back.head? = some '\n') := fun hc => h ⟨congrArg some hc.1, hc.2⟩
      rw [List.singleton_append, lineEnds_cons hc, lineEnds_cons (by simp)]
      rfl
    | cons d front =>
      rw [List.getLast?_cons_cons] at h
      rw [List.cons_append, lineEnds, ih h, ← Nat.add_assoc]
      rfl

theorem lineEnds_le_append (front back : List Char) : lineEnds back ≤ lineEnds (front ++ back) := by
  induction front with
  | nil => exact Nat.le_refl _
  | cons c front ih => exact Nat.le_trans ih (Nat.le_add_left _ _)

theorem lineEnds_le_length (text : List Char) : lineEnds text ≤ text.length := by
  induction text with
  | nil => exact Nat.le_refl _
  | cons c text ih =>
    rw [lineEnds, List.length_cons]
    split <;> omega

theorem lastLine_append (front back : List Char) :
    lastLine (front ++ back) =
      if back.any isLineTerminator then lastLine back else lastLine front ++ back := by
  rw [lastLine, lastLine, lastLine, List.rtakeWhile, List.rtakeWhile, List.rtakeWhile,
    List.reverse_append]
  by_cases hany : back.any isLineTerminator = true
  · rw [if_pos hany, List.takeWhile_append, if_neg]
    obtain ⟨d, hd, hline⟩ := List.any_eq_true.1 hany
    intro hlength
    have hself := (List.takeWhile_prefix _).eq_of_length hlength
    have hno := List.takeWhile_eq_self_iff.1 hself d (List.mem_reverse.2 hd)
    simp [hline] at hno
  · rw [if_neg hany, List.takeWhile_append_of_pos, List.reverse_append, List.reverse_reverse]
    intro d hd
    rw [Bool.not_eq_true, List.any_eq_false] at hany
    simpa using hany d (List.mem_reverse.1 hd)

theorem lastLine_cons (c : Char) (cs : List Char) :
    lastLine (c :: cs) =
      if cs.any isLineTerminator then lastLine cs
      else if isLineTerminator c then cs else c :: cs := by
  rw [← List.singleton_append, lastLine_append]
  cases hc : isLineTerminator c <;> simp [lastLine, List.rtakeWhile, hc]

namespace Position

/-- The position behind a text that starts the source, with the line and the column as counters of
32 bits show them. -/
def behind (text : List Char) : Position :=
  ⟨.ofNat (1 + lineEnds text), .ofNat (lastLine text).length, (String.ofList text).utf8ByteSize⟩

/-- As long as a text is not too long for the counters, they show the line and the column. -/
theorem toNat_behind {text : List Char} (h : text.length + 1 < 2 ^ 32) :
    (behind text).line.toNat = 1 + lineEnds text ∧
      (behind text).column.toNat = (lastLine text).length := by
  have hlines := lineEnds_le_length text
  have hcolumn : (lastLine text).length ≤ text.length := (List.rtakeWhile_suffix _ _).length_le
  exact ⟨UInt32.toNat_ofNat_of_lt' (by change _ < 2 ^ 32; omega),
    UInt32.toNat_ofNat_of_lt' (by change _ < 2 ^ 32; omega)⟩

/-! ## Moving over a text -/

theorem line_advance (p : Position) (text : List Char) :
    (p.advance text).line = p.line + .ofNat (lineEnds text) := by
  fun_induction advance p text with
  | case1 p => exact (UInt32.add_zero _).symm
  | case2 p cs ih => rw [ih, lineEnds_lineEnd, UInt32.ofNat_add, UInt32.add_assoc]; rfl
  | case3 p c cs hne ih =>
    have hc : ¬(c = '\r' ∧ cs.head? = some '\n') := by
      rintro ⟨rfl, hn⟩
      cases cs with
      | nil => cases hn
      | cons d cs => exact hne cs rfl (congrArg (· :: cs) (Option.some.inj hn))
    rw [ih, lineEnds_cons hc]
    split
    · rw [behindLineEnd, UInt32.ofNat_add, UInt32.add_assoc]
      rfl
    · rw [behindChar, Nat.zero_add]

theorem column_advance (p : Position) (text : List Char) :
    (p.advance text).column =
      if text.any isLineTerminator then .ofNat (lastLine text).length
      else p.column + .ofNat text.length := by
  fun_induction advance p text with
  | case1 p => exact (UInt32.add_zero _).symm
  | case2 p cs ih =>
    rw [ih, lastLine_cons, lastLine_cons]
    by_cases hany : cs.any isLineTerminator = true
    · simp [hany]
    · simp [hany, isLineTerminator]
  | case3 p c cs hne ih =>
    rw [ih, lastLine_cons]
    by_cases hany : cs.any isLineTerminator = true
    · simp [hany]
    · by_cases hc : isLineTerminator c = true
      · simp [hany, hc, behindLineEnd]
      · rw [if_neg hany, if_neg hc, if_neg (by simp [hany, hc]), behindChar, List.length_cons,
          Nat.add_comm cs.length, UInt32.ofNat_add, UInt32.add_assoc]
        rfl

/-- The first position is the second one but for a number of lines that it lacks; if it lacks some,
nothing is said about its column. -/
structure Lags (lost : Nat) (p q : Position) : Prop where
  line : p.line + .ofNat lost = q.line
  column : lost = 0 → p.column = q.column
  offset : p.offset = q.offset

namespace Lags

variable {p q r : Position} {lost more : Nat}

theorem refl (p : Position) : Lags 0 p p := ⟨UInt32.add_zero _, fun _ => rfl, rfl⟩

theorem eq (h : Lags 0 p q) : p = q := by
  obtain ⟨line, column, offset⟩ := p
  obtain ⟨line', column', offset'⟩ := q
  obtain ⟨hline, hcolumn, hoffset⟩ := h
  obtain rfl : line = line' := (UInt32.add_zero line).symm.trans hline
  obtain rfl : column = column' := hcolumn rfl
  obtain rfl : offset = offset' := hoffset
  rfl

theorem trans (h : Lags lost p q) (h' : Lags more q r) : Lags (lost + more) p r := by
  refine ⟨?_, fun hzero => ?_, h.offset.trans h'.offset⟩
  · rw [UInt32.ofNat_add, ← UInt32.add_assoc, h.line, h'.line]
  · rw [h.column (by omega), h'.column (by omega)]

theorem advance (h : Lags lost p q) (text : List Char) :
    Lags lost (p.advance text) (q.advance text) := by
  refine ⟨?_, fun hzero => ?_, ?_⟩
  · rw [line_advance, line_advance, UInt32.add_assoc, UInt32.add_comm (.ofNat (lineEnds text)),
      ← UInt32.add_assoc, h.line]
  · rw [column_advance, column_advance, h.column hzero]
  · rw [offset_advance, offset_advance, h.offset]

end Lags

/-- As long as a text is not too long for the counters, they show how many lines are missing. -/
theorem Lags.toNat_line {lost : Nat} {p : Position} {text : List Char}
    (h : Lags lost p (behind text)) (hlost : lost ≤ lineEnds text)
    (hlength : text.length + 1 < 2 ^ 32) :
    p.line.toNat + lost = 1 + lineEnds text := by
  have hline := congrArg UInt32.toNat h.line
  rw [(toNat_behind hlength).1, UInt32.toNat_add] at hline
  have hlt := p.line.toNat_lt
  have hlines := lineEnds_le_length text
  have hshown : (UInt32.ofNat lost).toNat = lost :=
    UInt32.toNat_ofNat_of_lt' (by change _ < 2 ^ 32; omega)
  rw [hshown] at hline
  omega

/-- Moving over a text from the start of the source is counting its line ends and characters. -/
theorem advance_start (text : List Char) : start.advance text = behind text := by
  refine Lags.eq ⟨?_, fun _ => ?_, ?_⟩
  · rw [line_advance, behind, UInt32.ofNat_add]
    exact UInt32.add_zero _
  · rw [column_advance]
    split
    · rfl
    · rename_i hany
      have hlast : lastLine text = text := by
        rw [Bool.not_eq_true, List.any_eq_false] at hany
        rw [lastLine, List.rtakeWhile_eq_self_iff]
        simpa using hany
      rw [behind, hlast]
      exact UInt32.zero_add _
  · rw [offset_advance]
    exact Nat.zero_add _

/-- A text may be moved over in two pieces that do not part a line end. -/
theorem advance_append (p : Position) {front back : List Char}
    (h : ¬(front.getLast? = some '\r' ∧ back.head? = some '\n')) :
    p.advance (front ++ back) = (p.advance front).advance back := by
  fun_induction advance p front with
  | case1 p => rfl
  | case2 p cs ih =>
    rw [List.cons_append, List.cons_append, advance]
    refine ih fun hcs => h ⟨?_, hcs.2⟩
    cases cs with
    | nil => cases hcs.1
    | cons c cs => exact hcs.1
  | case3 p c cs hne ih =>
    rw [List.cons_append, advance_cons]
    · refine ih fun hcs => h ⟨?_, hcs.2⟩
      cases cs with
      | nil => cases hcs.1
      | cons d cs => exact hcs.1
    · rintro ⟨rfl, hn⟩
      cases cs with
      | nil => exact h ⟨rfl, hn⟩
      | cons d cs => exact hne cs rfl (congrArg (· :: cs) (Option.some.inj hn))

end Position

/-! ## Moving over a token -/

/-- Whether a token is a name that takes a line end behind a backslash, given the character behind
it. -/
def swallowsLineEnd (kind : TokenKind) (raw : List Char) (next : Option Char) : Bool :=
  kind == .invalid .identifierEscape && raw.getLast?.any fun c => endsLine c next

/-- A token that swallows a line end has one. -/
theorem lineEnds_pos_of_swallows {kind : TokenKind} {raw gap rest : List Char}
    (h : swallowsLineEnd kind raw (gap ++ rest).head? = true) : 0 < lineEnds (raw ++ gap) := by
  rw [swallowsLineEnd, Bool.and_eq_true] at h
  obtain ⟨d, hlast, hends⟩ := (Option.any_eq_true ..).1 h.2
  obtain ⟨front, rfl⟩ := List.getLast?_eq_some_iff.1 hlast
  have hgap : endsLine d gap.head? = true := by
    cases gap with
    | nil =>
      rw [endsLine, Bool.and_eq_true] at hends
      rw [endsLine_eq (by simp)]
      exact hends.1
    | cons c gap => exact hends
  have hle := lineEnds_le_append front (d :: gap)
  rw [lineEnds, if_pos hgap] at hle
  rw [List.append_assoc, List.singleton_append]
  omega

/-- The position behind a token is right wherever a token may start in what is left, but for the
line that the token swallowed. -/
def Crosses (kind : TokenKind) (raw rest : List Char) : Prop :=
  ∀ (p : Position) (gap rest' : List Char), rest = gap ++ rest' → rest'.head? ≠ some '\n' →
    Position.Lags (if swallowsLineEnd kind raw rest.head? then 1 else 0)
      ((Scanner.positionBehind p kind raw).advance gap) (p.advance (raw ++ gap))

theorem crosses_of_cleanCut {kind : TokenKind} {raw rest : List Char}
    (hswallows : swallowsLineEnd kind raw rest.head? = false)
    (hbehind : ∀ p, Scanner.positionBehind p kind raw = p.advance raw)
    (hcut : CleanCut (raw ++ rest) rest) : Crosses kind raw rest := by
  intro p gap rest' hrest hhead
  rw [hswallows, hbehind, Position.advance_append]
  · exact .refl _
  · rintro ⟨hlast, hgap⟩
    refine hcut.not_parts ⟨hlast, ?_⟩
    cases gap with
    | nil => cases hgap
    | cons c gap =>
      rw [hrest]
      exact hgap

theorem crosses_of_inLine {kind : TokenKind} {raw rest : List Char}
    (hraw : ∀ c ∈ raw, isLineTerminator c = false) : Crosses kind raw rest := by
  have hswallows : swallowsLineEnd kind raw rest.head? = false := by
    cases hlast : raw.getLast? with
    | none => simp [swallowsLineEnd, hlast]
    | some c =>
      have hc := hraw c (List.mem_of_getLast? hlast)
      simp [swallowsLineEnd, hlast, endsLine, hc]
  refine crosses_of_cleanCut hswallows (fun p => ?_) (inLine_append hraw).cleanCut
  unfold Scanner.positionBehind
  split
  · exact p.advanceInLine_eq hraw
  · rfl

/-- A line terminator that ends a token of one line is passed over as if it were on the line. -/
theorem crosses_swallowed {front : List Char} {d : Char} {rest : List Char}
    (hfront : ∀ c ∈ front, isLineTerminator c = false) (hd : isLineTerminator d = true) :
    Crosses (.invalid .identifierEscape) (front ++ [d]) rest := by
  intro p gap rest' hrest hhead
  have hbehind : Scanner.positionBehind p (.invalid .identifierEscape) (front ++ [d]) =
      (p.advance front).behindChar d := by
    rw [Scanner.positionBehind, if_pos rfl, Position.advanceInLine, List.foldl_append]
    exact congrArg (·.behindChar d) (p.advanceInLine_eq hfront)
  have hadvance : p.advance (front ++ [d] ++ gap) = (p.advance front).advance (d :: gap) := by
    rw [List.append_assoc, List.singleton_append, Position.advance_append]
    rintro ⟨hlast, -⟩
    have hr := hfront '\r' (List.mem_of_getLast? hlast)
    cases hr
  have hswallows : swallowsLineEnd (.invalid .identifierEscape) (front ++ [d]) rest.head? =
      endsLine d rest.head? := by
    simp [swallowsLineEnd]
  rw [hbehind, hadvance, hswallows]
  generalize p.advance front = q
  by_cases hparts : d = '\r' ∧ rest.head? = some '\n'
  · -- the line feed is left, and ends the line
    obtain ⟨rfl, hn⟩ := hparts
    rw [hn]
    cases gap with
    | nil =>
      rw [hrest] at hn
      exact absurd hn hhead
    | cons c gap =>
      rw [hrest] at hn
      obtain rfl : c = '\n' := Option.some.inj hn
      rw [Position.advance_cons _ (by simp), Position.advance]
      exact .refl _
  · have hgap : ¬(d = '\r' ∧ gap.head? = some '\n') := by
      rintro ⟨rfl, hn⟩
      refine hparts ⟨rfl, ?_⟩
      cases gap with
      | nil => cases hn
      | cons c gap =>
        rw [hrest]
        exact hn
    rw [endsLine_eq hparts, Position.advance_cons _ hgap, hd, if_pos rfl, if_pos rfl]
    have hlags : Position.Lags 1 (q.behindChar d) (q.behindLineEnd d) :=
      ⟨rfl, fun hzero => absurd hzero Nat.one_ne_zero, rfl⟩
    exact hlags.advance gap

/-- A backslash and the character behind it, whatever that is. -/
theorem crosses_backslash {front : List Char} (hfront : ∀ c ∈ front, isLineTerminator c = false)
    (tail : List Char) :
    ∃ raw, front ++ '\\' :: tail = raw ++ tail.drop 1 ∧
      Crosses (.invalid .identifierEscape) raw (tail.drop 1) := by
  have hback : ∀ c ∈ front ++ ['\\'], isLineTerminator c = false := by
    intro c hc
    rcases List.mem_append.1 hc with hc | hc
    · exact hfront c hc
    · rw [List.mem_singleton.1 hc]
      rfl
  cases tail with
  | nil => exact ⟨front ++ ['\\'], by simp, crosses_of_inLine hback⟩
  | cons d tail =>
    refine ⟨front ++ ['\\'] ++ [d], by simp, ?_⟩
    by_cases hd : isLineTerminator d = true
    · exact crosses_swallowed hback hd
    · refine crosses_of_inLine fun c hc => ?_
      rcases List.mem_append.1 hc with hc | hc
      · exact hback c hc
      · rw [List.mem_singleton.1 hc, ← Bool.not_eq_true]
        exact hd

/-- Every token that starts with no line terminator. -/
theorem crosses_lex (strict : Bool) (goal : Goal) (n : Nesting) {cs : List Char}
    (hcs : ∀ c ∈ cs.head?, isLineTerminator c = false) :
    Crosses (lex strict goal n cs).kind (textBefore cs (lex strict goal n cs).rest)
      (lex strict goal n cs).rest := by
  cases cs with
  | nil => exact crosses_of_inLine nofun
  | cons c cs =>
    -- What a cursor moves over depends on the text alone, so any cursor at it will do.
    have htakes := Cursor.takes_lex strict goal n (k := ⟨c :: cs, .start, true⟩) rfl (hcs c rfl)
    have hlex := Cursor.mapRest_lex strict goal n ⟨c :: cs, .start, true⟩
    rw [← hlex]
    generalize Cursor.lex strict goal n ⟨c :: cs, .start, true⟩ = l at htakes ⊢
    cases htakes with
    | inLine hline _ =>
      obtain ⟨front, hfront, hno⟩ := hline.exists_front
      replace hfront : c :: cs = front ++ l.rest.rest := hfront
      rw [hfront, Lexeme.mapRest, textBefore_append_left]
      exact crosses_of_inLine hno
    | lines hkind hpasses =>
      have hcut : CleanCut (c :: cs) l.rest.rest := hpasses.cleanCut
      refine crosses_of_cleanCut ?_ (fun p => if_neg hkind) ?_
      · simp [Lexeme.mapRest, swallowsLineEnd, hkind]
      · rw [Lexeme.mapRest, textBefore_append hcut.suffix]
        exact hcut
    | @backslash tail hkind hline hmove =>
      obtain ⟨front, hfront, hno⟩ := hline.exists_front
      obtain ⟨raw, hraw, hcrosses⟩ := crosses_backslash hno tail
      replace hfront : c :: cs = raw ++ tail.drop 1 := hfront.trans hraw
      have hrest : l.rest.rest = tail.drop 1 := by
        rw [hmove]
        exact Cursor.rest_advanceTo (hfront ▸ List.suffix_append raw _)
      rw [Lexeme.mapRest, hkind, hrest, hfront, textBefore_append_left]
      exact hcrosses

/-! ## Runs -/

/-- Whether a token of a source is a name that takes a line end behind a backslash. -/
def Token.swallowsLineEnd (source : String) (t : Token) : Bool :=
  Ecma.swallowsLineEnd t.kind t.raw.toList (String.Pos.Raw.get? source ⟨t.stop⟩)

/-- The number of lines that tokens of a source swallow. -/
def linesLost (source : String) (tokens : List Token) : Nat :=
  tokens.countP (·.swallowsLineEnd source)

namespace Scanner

/-- A scanner reads a token behind a gap, at its position, and moves over the token. -/
structure Moves (s : Scanner) (gap raw : List Char) (t : Token) (s' : Scanner) : Prop where
  rest_eq : s.rest = gap ++ (raw ++ s'.rest)
  raw_eq : t.raw = String.ofList raw
  position_eq : t.position = s.position.advance gap
  head_ne : (raw ++ s'.rest).head? ≠ some '\n'
  position_after : s'.position = positionBehind t.position t.kind raw
  crosses : Crosses t.kind raw s'.rest

theorem finishUnclosed_moves {s : Scanner} {gap comment : List Char}
    (hrest : s.rest = gap ++ comment) (hhead : comment.head? = some '/') :
    s.Moves gap comment (s.finishUnclosed comment).1 (s.finishUnclosed comment).2 := by
  have hgap : textBefore s.rest comment = gap := by rw [hrest, textBefore_append_left]
  refine ⟨?_, rfl, ?_, ?_, rfl, ?_⟩
  · rw [hrest]
    exact congrArg (gap ++ ·) (List.append_nil comment).symm
  · rw [finishUnclosed, hgap]
  · change (comment ++ []).head? ≠ some '\n'
    rw [List.append_nil, hhead]
    decide
  · refine crosses_of_cleanCut rfl (fun p => rfl) (cleanCut_of_head ?_ ?_)
    · exact List.suffix_append comment []
    · intro hn
      cases hn

theorem finishGap_moves {s : Scanner} {gap rest : List Char} (goal : Goal) (newline : Bool)
    (hrest : s.rest = gap ++ rest) (hhead : ∀ c ∈ rest.head?, isLineTerminator c = false) :
    ∃ raw, s.Moves gap raw (s.finishGap goal newline rest).1 (s.finishGap goal newline rest).2 := by
  have hgap : textBefore s.rest rest = gap := by rw [hrest, textBefore_append_left]
  have hsuffix : (lex s.strict goal s.nesting rest).rest <:+ rest := by
    cases rest with
    | nil => exact List.suffix_rfl
    | cons c cs => exact (rest_lex_suffix ..).trans (List.suffix_cons c cs)
  have hraw : textBefore rest (lex s.strict goal s.nesting rest).rest ++
      (s.finishGap goal newline rest).2.rest = rest := textBefore_append hsuffix
  refine ⟨textBefore rest (lex s.strict goal s.nesting rest).rest, ?_, rfl, ?_, ?_, rfl, ?_⟩
  · rw [hraw, hrest]
  · rw [finishGap, hgap]
  · rw [hraw]
    intro hn
    cases hhead '\n' hn
  · exact crosses_lex s.strict goal s.nesting hhead

/-- Every call moves over a token. -/
theorem next_moves (goal : Goal) (s : Scanner) :
    ∃ gap raw, s.Moves gap raw (s.next goal).1 (s.next goal).2 := by
  obtain ⟨gap, hrest, -⟩ := gap_skipTrivia s.lineStart (s.position.offset == 0) false s.rest
  rw [next_eq]
  split
  · rename_i comment hskip
    rw [hskip] at hrest
    exact ⟨gap, comment, finishUnclosed_moves hrest (head?_unclosed hskip)⟩
  · rename_i newline rest hskip
    rw [hskip] at hrest
    exact ⟨gap, finishGap_moves goal newline hrest (head_skipTrivia hskip)⟩

/-- A scanner is inside a source, and wherever a token may start in what is left, its position will
be right but for a number of lost lines. -/
def Tracks (source : String) (lost : Nat) (s : Scanner) : Prop :=
  ∃ before, source.toList = before ++ s.rest ∧
    ∀ gap rest, s.rest = gap ++ rest → rest.head? ≠ some '\n' →
      Position.Lags lost (s.position.advance gap) (.behind (before ++ gap)) ∧
        lost ≤ lineEnds (before ++ gap)

theorem tracks_ofString (source : String) (strict : Bool) :
    (ofString source strict).Tracks source 0 := by
  refine ⟨[], rfl, fun gap rest _ _ => ⟨?_, Nat.zero_le _⟩⟩
  rw [List.nil_append, ← Position.advance_start]
  exact .refl _

namespace Moves

variable {source : String} {s s' : Scanner} {gap raw before : List Char} {t : Token} {lost : Nat}

/-- The character behind a token is the next one. -/
theorem swallowsLineEnd_eq (h : s.Moves gap raw t s')
    (hsource : source.toList = before ++ gap ++ raw ++ s'.rest)
    (hoffset : t.position.offset = (String.ofList (before ++ gap)).utf8ByteSize) :
    t.swallowsLineEnd source = Ecma.swallowsLineEnd t.kind raw s'.rest.head? := by
  have hstop : t.stop = (String.ofList (before ++ gap ++ raw)).utf8ByteSize := by
    rw [Token.stop, hoffset, h.raw_eq, ← String.utf8ByteSize_append, ← String.ofList_append]
  have hnext : String.Pos.Raw.get? source ⟨t.stop⟩ = s'.rest.head? := by
    have hget := String.get?_of_valid (before ++ gap ++ raw) s'.rest
    rwa [← hsource, String.ofList_toList, ← String.utf8ByteSize_ofList, ← hstop] at hget
  rw [Token.swallowsLineEnd, hnext, h.raw_eq, String.toList_ofList]

theorem tracks (h : s.Moves gap raw t s') (hs : s.Tracks source lost) :
    (∃ before after : String, source = before ++ t.raw ++ after ∧
      Position.Lags lost t.position (.behind before.toList) ∧ lost ≤ lineEnds before.toList) ∧
    s'.Tracks source (lost + if t.swallowsLineEnd source then 1 else 0) := by
  obtain ⟨before, hsource, hlags⟩ := hs
  obtain ⟨hposition, hlost⟩ := hlags gap (raw ++ s'.rest) h.rest_eq h.head_ne
  rw [← h.position_eq] at hposition
  have hcut : source.toList = before ++ gap ++ raw ++ s'.rest := by
    rw [hsource, h.rest_eq]
    simp only [List.append_assoc]
  refine ⟨⟨String.ofList (before ++ gap), String.ofList s'.rest, ?_, ?_⟩,
    before ++ gap ++ raw, hcut, fun gap' rest' hrest hhead => ?_⟩
  · rw [h.raw_eq, ← String.ofList_append, ← String.ofList_append, ← hcut, String.ofList_toList]
  · rw [String.toList_ofList]
    exact ⟨hposition, hlost⟩
  · rw [h.swallowsLineEnd_eq hcut hposition.offset, Nat.add_comm]
    have hparts : ¬((before ++ gap).getLast? = some '\r' ∧ (raw ++ gap').head? = some '\n') := by
      rintro ⟨-, hn⟩
      refine h.head_ne ?_
      rw [hrest, ← List.append_assoc, List.head?_append, hn]
      rfl
    have hcrosses := h.crosses t.position gap' rest' hrest hhead
    have hbehind : Position.behind (before ++ gap ++ (raw ++ gap')) =
        (Position.behind (before ++ gap)).advance (raw ++ gap') := by
      rw [← Position.advance_start, ← Position.advance_start, Position.advance_append _ hparts]
    have hswallowed : (if Ecma.swallowsLineEnd t.kind raw s'.rest.head? then 1 else 0) ≤
        lineEnds (raw ++ gap') := by
      split
      · rename_i hswallows
        rw [hrest] at hswallows
        exact lineEnds_pos_of_swallows hswallows
      · exact Nat.zero_le _
    rw [List.append_assoc _ raw, hbehind, h.position_after, lineEnds_append hparts]
    exact ⟨hcrosses.trans (hposition.advance (raw ++ gap')), by omega⟩

end Moves

/-- Each token is at its position but for the lines that the tokens before it swallowed. -/
theorem tokensAfter_lags {source : String} (previous : Option TokenKind) {s : Scanner} {lost : Nat}
    (hs : s.Tracks source lost) {front back : List Token} {t : Token}
    (h : s.tokensAfter previous = front ++ t :: back) :
    ∃ before after : String, source = before ++ t.raw ++ after ∧
      Position.Lags (lost + linesLost source front) t.position
        (.behind before.toList) ∧
      lost + linesLost source front ≤ lineEnds before.toList := by
  obtain ⟨previous', s', hs', htokens⟩ := tokensAfter_cut
    (fun past s => s.Tracks source (lost + linesLost source past))
    (fun past s goal hs _ => by
      obtain ⟨gap, raw, hmoves⟩ := next_moves goal s
      rw [linesLost, List.countP_append, List.countP_singleton, ← Nat.add_assoc]
      exact (hmoves.tracks hs).2) previous hs h
  obtain ⟨rfl, -⟩ := tokensAfter_eq_cons htokens
  obtain ⟨gap, raw, hmoves⟩ := next_moves (.after previous') s'
  exact (hmoves.tracks hs').1

end Scanner

theorem length_before_lt {source before raw after : String}
    (hsource : source = before ++ raw ++ after) (h : source.length + 1 < 2 ^ 32) :
    before.toList.length + 1 < 2 ^ 32 := by
  rw [hsource, String.length_append, String.length_append] at h
  rw [String.length_toList]
  omega

/-- The tokens of a source tile it, and up to the first invalid one, which is among them, each is at
the position of the text before it. If the source is not too long for the counters, its line is one
more than the number of line ends before it and its column the number of characters behind the last
one. -/
theorem positions_exact (source : String) (strict : Bool) :
    Tiles source 0 (tokenize source strict) ∧
    ∀ front t back, tokenize source strict = front ++ t :: back →
      (∀ u ∈ front, u.kind.isInvalid = false) →
      ∃ before after : String, source = before ++ t.raw ++ after ∧
        t.position = .behind before.toList ∧
        (source.length + 1 < 2 ^ 32 →
          t.position.line.toNat = 1 + lineEnds before.toList ∧
          t.position.column.toNat = (lastLine before.toList).length) := by
  refine ⟨?_, fun front t back h hvalid => ?_⟩
  · obtain ⟨goals, hgoals⟩ := Scanner.tokensAfter_eq_run none (Scanner.ofString source strict)
    rw [tokenize, Scanner.tokens, hgoals]
    exact Scanner.tiles_run goals (Scanner.at_ofString source strict)
  · have htracks := Scanner.tracks_ofString source strict
    obtain ⟨before, after, hsource, hlags, -⟩ := Scanner.tokensAfter_lags none htracks h
    have hnone : linesLost source front = 0 := by
      refine List.countP_eq_zero.2 fun u hu hswallows => ?_
      have hkind : u.kind = .invalid .identifierEscape := by
        rw [Token.swallowsLineEnd, swallowsLineEnd, Bool.and_eq_true, beq_iff_eq] at hswallows
        exact hswallows.1
      have hinvalid := hvalid u hu
      rw [hkind] at hinvalid
      cases hinvalid
    rw [hnone] at hlags
    refine ⟨before, after, hsource, hlags.eq, fun hlength => ?_⟩
    rw [hlags.eq]
    exact Position.toNat_behind (length_before_lt hsource hlength)

/-- A string over a line continuation stands behind a comment over a line end, and two more line
ends, a template with one and an open string come behind it. -/
theorem positions_exact_lines :
    let source := "a /*\r\n*/ 'b\\\r\nc'\u2028\n\x60x\ny\x60 d \""
    let front := (tokenize source false).take 4
    let t : Token := ⟨.invalid .unterminatedString, "\"", ⟨6, 5, 28⟩, false⟩
    (∃ back, tokenize source false = front ++ t :: back) ∧
      (∀ u ∈ front, u.kind.isInvalid = false) ∧ source.length + 1 < 2 ^ 32 ∧
      ∃ before after : String, source = before ++ t.raw ++ after ∧
        t.position = .behind before.toList ∧
        t.position.line.toNat = 1 + lineEnds before.toList ∧
        t.position.column.toNat = (lastLine before.toList).length := by
  intro source front t
  have htokens : ∃ back, tokenize source false = front ++ t :: back :=
    ⟨(tokenize source false).drop 5, by decide +kernel⟩
  have hvalid : ∀ u ∈ front, u.kind.isInvalid = false := by decide +kernel
  have hlength : source.length + 1 < 2 ^ 32 := by decide +kernel
  obtain ⟨back, hback⟩ := htokens
  obtain ⟨before, after, hsource, hposition, hcounted⟩ :=
    (positions_exact source false).2 front t back hback hvalid
  exact ⟨⟨back, hback⟩, hvalid, hlength, before, after, hsource, hposition, hcounted hlength⟩

/-- Behind invalid tokens, offsets are exact, and the line of a token lacks one line for each token
before it that swallowed a line end. If none did, the position is exact. -/
theorem positions_lag (source : String) (strict : Bool) {front back : List Token} {t : Token}
    (h : tokenize source strict = front ++ t :: back) :
    ∃ before after : String, source = before ++ t.raw ++ after ∧
      t.position.offset = before.utf8ByteSize ∧
      linesLost source front ≤ lineEnds before.toList ∧
      t.position.line + .ofNat (linesLost source front) = .ofNat (1 + lineEnds before.toList) ∧
      (source.length + 1 < 2 ^ 32 →
        t.position.line.toNat + linesLost source front = 1 + lineEnds before.toList) ∧
      (linesLost source front = 0 → t.position = .behind before.toList) := by
  have htracks := Scanner.tracks_ofString source strict
  obtain ⟨before, after, hsource, hlags, hlost⟩ := Scanner.tokensAfter_lags none htracks h
  rw [Nat.zero_add] at hlags hlost
  refine ⟨before, after, hsource, ?_, hlost, hlags.line, fun hlength => ?_, fun hnone => ?_⟩
  · rw [hlags.offset, Position.behind, String.ofList_toList]
  · exact hlags.toNat_line hlost (length_before_lt hsource hlength)
  · rw [hnone] at hlags
    exact hlags.eq

/-- An escape that no name may have, then one that takes a carriage return and leaves its line feed,
and then one that takes a whole line end. -/
theorem positions_lag_counted :
    let source := "\\u0021 \\\r\n\\\na"
    let front := (tokenize source false).take 3
    let t : Token := ⟨.identifier "a", "a", ⟨2, 2, 12⟩, false⟩
    (∃ back, tokenize source false = front ++ t :: back) ∧
      linesLost source front = 1 ∧ source.length + 1 < 2 ^ 32 ∧
      ∃ before after : String, source = before ++ t.raw ++ after ∧
        t.position.offset = before.utf8ByteSize ∧
        t.position.line.toNat + 1 = 1 + lineEnds before.toList := by
  intro source front t
  have htokens : ∃ back, tokenize source false = front ++ t :: back :=
    ⟨(tokenize source false).drop 4, by decide +kernel⟩
  have hcount : linesLost source front = 1 := by decide +kernel
  have hlength : source.length + 1 < 2 ^ 32 := by decide +kernel
  obtain ⟨back, hback⟩ := htokens
  obtain ⟨before, after, hsource, hoffset, -, -, hline, -⟩ := positions_lag source false hback
  rw [hcount] at hline
  exact ⟨⟨back, hback⟩, hcount, hlength, before, after, hsource, hoffset, hline hlength⟩

/-- The name behind a backslash and a line feed is on the second line, and said to be on the
first. -/
theorem line_lost_behind_backslash :
    ∃ front t back, tokenize "\\\na" false = front ++ t :: back ∧
      (∃ u ∈ front, u.kind.isInvalid = true) ∧ t.position = ⟨1, 2, 2⟩ ∧
      "\\\na" = "\\\n" ++ t.raw ∧ Position.behind "\\\n".toList = ⟨2, 0, 2⟩ := by
  refine ⟨(tokenize "\\\na" false).take 1, ⟨.identifier "a", "a", ⟨1, 2, 2⟩, false⟩,
    (tokenize "\\\na" false).drop 2, ?_⟩
  decide +kernel

end Ecma
