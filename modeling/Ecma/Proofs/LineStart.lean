import Ecma.Proofs.Location
import Ecma.Proofs.Spelling

/-!
# The start of a line

The closing mark of an HTML comment opens a comment at the start of a line only: where the scanner
has read no token on the line yet. A token over several lines is taken to be on the first one of
them, so a mark right behind such a token is skipped with the rest of its line.
`closeMark_skipped_iff` says when the mark is skipped, wherever it stands between two tokens, and
that else the operators in it are read.
-/

namespace Ecma

/-! ## Texts and their sizes -/

/-- Of two ends of a text, the one with fewer bytes is an end of the other one. -/
theorem suffix_of_utf8ByteSize_le {short long text : List Char} (hs : short <:+ text)
    (hl : long <:+ text)
    (h : (String.ofList short).utf8ByteSize ≤ (String.ofList long).utf8ByteSize) :
    short <:+ long := by
  rcases List.suffix_or_suffix_of_suffix hs hl with hsuffix | ⟨front, rfl⟩
  · exact hsuffix
  · rw [String.ofList_append, String.utf8ByteSize_append] at h
    have hfront : String.ofList front = "" := String.utf8ByteSize_eq_zero_iff.1 (by omega)
    rw [String.ofList_eq_empty_iff] at hfront
    rw [hfront]
    exact List.suffix_rfl

/-- A text is cut in one way at a number of bytes. -/
theorem append_inj_of_utf8ByteSize {before before' rest rest' : List Char}
    (h : before ++ rest = before' ++ rest')
    (hsize : (String.ofList before).utf8ByteSize = (String.ofList before').utf8ByteSize) :
    before = before' ∧ rest = rest' := by
  have htotal := congrArg (fun text => (String.ofList text).utf8ByteSize) h
  simp only [String.ofList_append, String.utf8ByteSize_append] at htotal
  have hs : rest <:+ before ++ rest := List.suffix_append before rest
  have hs' : rest' <:+ before ++ rest := h ▸ List.suffix_append before' rest'
  have hle := (suffix_of_utf8ByteSize_le hs hs' (by omega)).length_le
  have hge := (suffix_of_utf8ByteSize_le hs' hs (by omega)).length_le
  exact List.append_inj' h (Nat.le_antisymm hle hge)

/-- The last line of a text stays behind a cut if a line ends behind the cut or right at it. -/
theorem lastLine_suffix_iff (front back : List Char) :
    lastLine (front ++ back) <:+ back ↔ back.any isLineTerminator = true ∨ lastLine front = [] := by
  rw [lastLine_append]
  split
  · rename_i hany
    exact iff_of_true (List.rtakeWhile_suffix _ back) (Or.inl hany)
  · rename_i hany
    refine ⟨fun h => Or.inr ?_, fun h => ?_⟩
    · have hlength := h.length_le
      rw [List.length_append] at hlength
      exact List.eq_nil_of_length_eq_zero (by omega)
    · rcases h with h | h
      · exact absurd h hany
      · rw [h]
        exact List.suffix_rfl

/-! ## Places between tokens -/

/-- Where the last of some tokens stops. -/
def stopOf (tokens : List Token) : Nat := tokens.getLast?.elim 0 Token.stop

/-- Whether the scanner takes the line that a token ends on to be without a token. An invalid token
is taken to be on that line, whatever it holds. -/
def Token.leavesLine (t : Token) : Bool :=
  !t.kind.isInvalid && t.raw.toList.any isLineTerminator

/-- Whether the scanner takes the line behind some tokens to be without a token. -/
def lineStartAfter (tokens : List Token) : Bool := tokens.getLast?.all Token.leavesLine

/-- A cut of a source in the gap before a token: the text up to the end of the tokens before it, a
gap from there on, and the source behind the place. -/
structure Between (source : String) (front : List Token) (t : Token)
    (before gap after : List Char) : Prop where
  source_eq : source.toList = before ++ (gap ++ after)
  size_eq : (String.ofList before).utf8ByteSize = stopOf front
  isGap : Gap after (stopOf front == 0) gap
  reached : (String.ofList (before ++ gap)).utf8ByteSize ≤ t.position.offset

theorem Between.size_source {source : String} {front : List Token} {t : Token}
    {before gap after : List Char} (h : Between source front t before gap after) :
    source.utf8ByteSize =
      (String.ofList (before ++ gap)).utf8ByteSize + (String.ofList after).utf8ByteSize := by
  rw [← String.utf8ByteSize_append, ← String.ofList_append, List.append_assoc, ← h.source_eq,
    String.ofList_toList]

/-- The line is skipped from a place on, up to its end at least. -/
def SkipsLine (t : Token) (before after : List Char) : Prop :=
  (String.ofList (before ++ after.takeWhile fun c => !isLineTerminator c)).utf8ByteSize ≤
    t.position.offset

instance (t : Token) (before after : List Char) : Decidable (SkipsLine t before after) :=
  inferInstanceAs (Decidable (_ ≤ _))

/-- A decrement is read right behind a text, and right behind it an operator that starts with a
greater-than sign. -/
structure ReadsDecrement (t : Token) (back : List Token) (before : List Char) : Prop where
  kind_eq : t.kind = .punctuator .decrement
  offset_eq : t.position.offset = (String.ofList before).utf8ByteSize
  greater : ∃ u tokens p, back = u :: tokens ∧ u.kind = .punctuator p ∧
    ['>'] <+: p.spelling.toList ∧ u.position.offset = t.stop

theorem ReadsDecrement.not_skipsLine {t : Token} {back : List Token} {before after : List Char}
    (h : ReadsDecrement t back before) (hmark : ['-', '-', '>'] <+: after) :
    ¬SkipsLine t before after := by
  have hline : ∀ c ∈ ['-', '-', '>'], (!isLineTerminator c) = true := by simp [isLineTerminator]
  obtain ⟨cs, hcs⟩ := opens_firstLine hmark hline
  rw [SkipsLine, h.offset_eq, ← hcs]
  simp only [String.ofList_append, String.utf8ByteSize_append]
  have hsize : (String.ofList ['-', '-', '>']).utf8ByteSize = 3 := rfl
  omega

/-! ## Runs -/

namespace Scanner

/-- A scanner stands behind some tokens of a source. -/
structure Stands (source : String) (tokens : List Token) (before : List Char) (s : Scanner) :
    Prop where
  source_eq : source.toList = before ++ s.rest
  size_eq : (String.ofList before).utf8ByteSize = stopOf tokens
  offset_eq : s.position.offset = stopOf tokens
  lineStart_eq : s.lineStart = lineStartAfter tokens
  last_raw : ∀ u ∈ tokens.getLast?, u.raw.toList ≠ [] ∧ u.raw.toList <:+ before

theorem stands_ofString (source : String) (strict : Bool) :
    (ofString source strict).Stands source [] [] :=
  ⟨rfl, rfl, rfl, rfl, nofun⟩

theorem lineStart_next {goal : Goal} {s : Scanner} (h : (s.next goal).1.kind ≠ .endOfSource) :
    (s.next goal).2.lineStart = (s.next goal).1.leavesLine := by
  rw [next_eq] at h ⊢
  split at h
  · rfl
  · exact (lineStartBehind_eq h).trans (by simp [Token.leavesLine, finishGap])

theorem Stands.next {source : String} {tokens : List Token} {before : List Char} {s : Scanner}
    (hs : s.Stands source tokens before) {goal : Goal}
    (h : (s.next goal).1.kind ≠ .endOfSource) :
    ∃ before', (s.next goal).2.Stands source (tokens ++ [(s.next goal).1]) before' := by
  obtain ⟨gap, raw, hreads⟩ := next_reads goal s
  have hstop : stopOf (tokens ++ [(s.next goal).1]) = (s.next goal).1.stop := by
    simp [stopOf]
  have hraw : (s.next goal).1.raw.toList = raw := by
    rw [hreads.raw_eq, String.toList_ofList]
  refine ⟨before ++ gap ++ raw, ?_, ?_, ?_, ?_, ?_⟩
  · rw [hs.source_eq, hreads.rest_eq]
    simp only [List.append_assoc]
  · rw [hstop, Token.stop, hreads.offset_eq, hs.offset_eq, hreads.raw_eq, ← hs.size_eq]
    simp only [String.ofList_append, String.utf8ByteSize_append]
  · rw [hstop, Token.stop, hreads.offset_after, hreads.raw_eq]
  · rw [lineStart_next h]
    simp [lineStartAfter]
  · intro u hu
    obtain rfl : (s.next goal).1 = u := by simpa using hu
    rw [hraw]
    exact ⟨hreads.raw_ne_nil h, List.suffix_append _ raw⟩

/-- What is left from a token on makes up the source behind its position. -/
theorem Stands.offset_next {source : String} {tokens : List Token} {before : List Char}
    {s : Scanner} (hs : s.Stands source tokens before) (goal : Goal) :
    (s.next goal).1.position.offset +
        (String.ofList (skipTrivia s.lineStart (s.position.offset == 0) false
          s.rest).rest).utf8ByteSize = source.utf8ByteSize := by
  have hsuffix := rest_skipTrivia_suffix s.lineStart (s.position.offset == 0) false s.rest
  have hposition : (s.next goal).1.position = s.position.advance
      (textBefore s.rest (skipTrivia s.lineStart (s.position.offset == 0) false s.rest).rest) := by
    rw [Scanner.next_eq]
    split <;> simp [*, finishUnclosed, finishGap, Trivia.rest]
  rw [hposition, Position.offset_advance, Nat.add_assoc, ← String.utf8ByteSize_append,
    ← String.ofList_append, textBefore_append hsuffix, hs.offset_eq, ← hs.size_eq,
    ← String.utf8ByteSize_append, ← String.ofList_append, ← hs.source_eq, String.ofList_toList]

/-! ## The closing mark -/

theorem skipTrivia_closeMark (lineStart atStart newline : Bool) {cs : List Char}
    (h : ['-', '-', '>'] <+: cs) :
    skipTrivia lineStart atStart newline cs =
      if lineStart || newline then skipTrivia lineStart false newline (dropLine cs)
      else .gap newline cs := by
  obtain ⟨cs, rfl⟩ := h
  have hstart : triviaStart atStart (lineStart || newline) ('-' :: '-' :: '>' :: cs) =
      if lineStart || newline then .lineComment else .none := rfl
  simp only [List.cons_append, List.nil_append]
  rw [skipTrivia, hstart]
  cases lineStart || newline
  · rfl
  · rfl

/-- An operator that starts with a greater-than sign is read where the sign is. -/
theorem next_greater {s : Scanner} {cs : List Char} (h : s.rest = '>' :: cs) (goal : Goal) :
    ∃ p, (s.next goal).1.kind = .punctuator p ∧ ['>'] <+: p.spelling.toList ∧
      (s.next goal).1.position = s.position := by
  have hskip : skipTrivia s.lineStart (s.position.offset == 0) false s.rest =
      .gap false ('>' :: cs) := by
    rw [h]
    exact skipTrivia_of_none fun _ _ => rfl
  have hstart : isIdentifierStart '>' = false := by decide
  have hdigit : isDecimalDigit '>' = false := by decide
  have hlex : (lex s.strict goal s.nesting ('>' :: cs)).kind =
      .punctuator (Punctuator.readGreater cs).1 := by
    simp [lex, hstart, hdigit, lexPunctuator, Punctuator.readFrom?]
  refine ⟨(Punctuator.readGreater cs).1, ?_, ?_, ?_⟩
  · rw [next_of_gap hskip]
    exact hlex
  · have hspells : '>' :: cs = _ ++ _ := Punctuator.spells_readGreater cs
    obtain ⟨c, tail, hspelling, -⟩ := Punctuator.readFrom?_space (Punctuator.readGreater cs).1 []
    rw [hspelling, List.cons_append] at hspells
    rw [hspelling, (List.cons.inj hspells).1]
    exact ⟨tail, rfl⟩
  · have hnothing : textBefore ('>' :: cs) ('>' :: cs) = [] := textBefore_append_left [] _
    rw [next_of_gap hskip, finishGap, h, hnothing]
    rfl

variable {source : String} {front back : List Token} {t : Token} {before gap after : List Char}
  {s : Scanner} {goal : Goal}

theorem Stands.cut_eq {before' : List Char} (hs : s.Stands source front before')
    (hcut : Between source front t before gap after) :
    before' = before ∧ s.rest = gap ++ after := by
  refine append_inj_of_utf8ByteSize ?_ (hs.size_eq.trans hcut.size_eq.symm)
  rw [← hs.source_eq, hcut.source_eq]

/-- Skipping goes on at a place between two tokens. -/
theorem Stands.skipTrivia_eq {before' : List Char} (hs : s.Stands source front before')
    (hcut : Between source front (s.next goal).1 before gap after) :
    skipTrivia s.lineStart (s.position.offset == 0) false s.rest =
      skipTrivia s.lineStart ((s.position.offset == 0) && gap.isEmpty)
        (gap.any isLineTerminator) after := by
  obtain ⟨rfl, hrest⟩ := hs.cut_eq hcut
  have hgap : Gap after (s.position.offset == 0) gap := by
    rw [hs.offset_eq]
    exact hcut.isGap
  have hsuffix := rest_skipTrivia_suffix s.lineStart (s.position.offset == 0) false s.rest
  have hoffset := hs.offset_next goal
  have hsize := hcut.size_source
  have hreached := hcut.reached
  rw [hrest] at hsuffix hoffset ⊢
  -- the token starts at the place or behind it, so skipping gets as far
  have hfar := suffix_of_utf8ByteSize_le hsuffix (List.suffix_append gap after) (by omega)
  rw [skipTrivia_gap hgap s.lineStart false hfar, Bool.false_or]

/-- At the start of a line, the mark and the rest of the line are skipped. -/
theorem Stands.skipsLine {before' : List Char} (hs : s.Stands source front before')
    (hcut : Between source front (s.next goal).1 before gap after)
    (hmark : ['-', '-', '>'] <+: after)
    (hstart : (s.lineStart || gap.any isLineTerminator) = true) :
    SkipsLine (s.next goal).1 (before ++ gap) after := by
  have hoffset := hs.offset_next goal
  rw [hs.skipTrivia_eq hcut, skipTrivia_closeMark _ _ _ hmark, if_pos hstart] at hoffset
  obtain ⟨skipped, hskipped⟩ := rest_skipTrivia_suffix s.lineStart false
    (gap.any isLineTerminator) (dropLine after)
  have hline : (after.takeWhile fun c => !isLineTerminator c) ++ dropLine after = after :=
    List.takeWhile_append_dropWhile
  have hsize := hcut.size_source
  rw [← hline, ← hskipped] at hsize
  simp only [SkipsLine, String.ofList_append, String.utf8ByteSize_append] at hsize ⊢
  omega

/-- Behind a token on the line, the operators in the mark are read. -/
theorem Stands.readsDecrement {before' : List Char} {previous : Option TokenKind}
    (hs : s.Stands source front before') (htokens : s.tokensAfter previous = t :: back)
    (hcut : Between source front t before gap after) (hmark : ['-', '-', '>'] <+: after)
    (hstart : (s.lineStart || gap.any isLineTerminator) = false) :
    ReadsDecrement t back (before ++ gap) := by
  obtain ⟨rfl, hback⟩ := tokensAfter_eq_cons htokens
  have hskip := hs.skipTrivia_eq hcut
  rw [skipTrivia_closeMark _ _ _ hmark, hstart] at hskip
  have hoffset := hs.offset_next (.after previous)
  have hsize := hcut.size_source
  rw [hskip] at hoffset
  have hnext : s.nextAfter previous = s.finishGap (.after previous) _ _ := next_of_gap hskip
  obtain ⟨cs, rfl⟩ := hmark
  have hlex := lex_decrement s.strict (.after previous) s.nesting ('>' :: cs)
  have hkind : (s.nextAfter previous).1.kind = .punctuator .decrement := by
    rw [hnext, finishGap]
    exact congrArg Lexeme.kind hlex
  refine ⟨hkind, ?_, ?_⟩
  · exact Nat.add_right_cancel (hoffset.trans hsize)
  · obtain ⟨previous', rfl⟩ := hback (by simp [hkind])
    have hrest : (s.nextAfter previous).2.rest = '>' :: cs := by
      rw [hnext, finishGap]
      exact congrArg Lexeme.rest hlex
    have hstop : (s.nextAfter previous).2.position.offset = (s.nextAfter previous).1.stop := by
      obtain ⟨gap', raw, hreads⟩ := next_reads (.after previous) s
      rw [nextAfter, hreads.offset_after, Token.stop, hreads.raw_eq]
    obtain ⟨u, tokens, hu⟩ := List.exists_cons_of_ne_nil
      (tokensAfter_ne_nil previous' (s.nextAfter previous).2)
    obtain ⟨rfl, -⟩ := tokensAfter_eq_cons hu
    obtain ⟨p, hp, hspelling, hposition⟩ := next_greater hrest (.after previous')
    exact ⟨_, tokens, p, hu, hp, hspelling, (congrArg Position.offset hposition).trans hstop⟩

/-- Behind a token on one line, the scanner is at the start of a line exactly if only a gap is
before it on that line. -/
theorem Stands.lineStart_iff {before : List Char} (hs : s.Stands source front before)
    (hlast : ∀ u ∈ front.getLast?, u.raw.toList.any isLineTerminator = false) (gap : List Char) :
    (s.lineStart || gap.any isLineTerminator) = true ↔ lastLine (before ++ gap) <:+ gap := by
  rw [lastLine_suffix_iff, Bool.or_eq_true, or_comm, hs.lineStart_eq]
  refine or_congr_right ?_
  cases hfront : front.getLast? with
  | none =>
    have hbefore : String.ofList before = "" := by
      refine String.utf8ByteSize_eq_zero_iff.1 (hs.size_eq.trans ?_)
      rw [stopOf, hfront, Option.elim_none]
    rw [String.ofList_eq_empty_iff] at hbefore
    simp [lineStartAfter, hfront, hbefore, lastLine]
  | some u =>
    obtain ⟨hraw, earlier, rfl⟩ := hs.last_raw u hfront
    have hline := hlast u hfront
    have hleaves : lineStartAfter front = false := by
      simp [lineStartAfter, hfront, Token.leavesLine, hline]
    simp [hleaves, lastLine_append, hline, hraw]

end Scanner

/-- Wherever the closing mark of an HTML comment stands between two tokens, it is skipped with the
rest of its line if a line terminator stands in the gap before it, if no token is before it, or if
the token before it is valid and goes over a line end. Else its characters are read as operators.
Unless the token before it goes over a line end, that is to skip the mark if only a gap is before it
on the line. -/
theorem closeMark_skipped_iff (source : String) (strict : Bool) {front back : List Token}
    {t : Token} {before gap after : List Char}
    (h : tokenize source strict = front ++ t :: back)
    (hcut : Between source front t before gap after) (hmark : ['-', '-', '>'] <+: after) :
    (SkipsLine t (before ++ gap) after ↔
      lineStartAfter front = true ∨ gap.any isLineTerminator = true) ∧
    (¬SkipsLine t (before ++ gap) after → ReadsDecrement t back (before ++ gap)) ∧
    ((∀ u ∈ front.getLast?, u.raw.toList.any isLineTerminator = false) →
      (SkipsLine t (before ++ gap) after ↔ lastLine (before ++ gap) <:+ gap)) := by
  obtain ⟨previous, s, ⟨before', hs⟩, htokens⟩ := Scanner.tokensAfter_cut
    (fun tokens s => ∃ before, s.Stands source tokens before)
    (fun _ _ _ ⟨_, hs⟩ hne => hs.next hne) none ⟨[], Scanner.stands_ofString source strict⟩ h
  obtain ⟨rfl, -⟩ := hs.cut_eq hcut
  have hreads := hs.readsDecrement htokens hcut hmark
  obtain ⟨rfl, -⟩ := Scanner.tokensAfter_eq_cons htokens
  have hskips : SkipsLine (s.nextAfter previous).1 (before' ++ gap) after ↔
      (s.lineStart || gap.any isLineTerminator) = true := by
    refine ⟨fun hskips => ?_, hs.skipsLine hcut hmark⟩
    by_contra hstart
    rw [Bool.not_eq_true] at hstart
    exact (hreads hstart).not_skipsLine hmark hskips
  refine ⟨?_, fun hread => hreads ?_, fun hlast => hskips.trans (hs.lineStart_iff hlast gap)⟩
  · rw [hskips, Bool.or_eq_true, hs.lineStart_eq]
  · rwa [hskips, Bool.not_eq_true] at hread

/-- A mark right behind a name is read, and one behind a comment on the next line is skipped. -/
theorem closeMark_skipped_iff_lines :
    let source := "a-->b\n/**/-->c"
    let tokens := tokenize source false
    let read : Token := ⟨.punctuator .decrement, "--", ⟨1, 1, 1⟩, false⟩
    let last : Token := ⟨.endOfSource, "", ⟨2, 8, 14⟩, true⟩
    tokens = tokens.take 1 ++ read :: tokens.drop 2 ∧ tokens = tokens.take 4 ++ [last] ∧
      ReadsDecrement read (tokens.drop 2) "a".toList ∧
      SkipsLine last "a-->b\n/**/".toList "-->c".toList := by
  intro source tokens read last
  have hread : tokens = tokens.take 1 ++ read :: tokens.drop 2 := by decide +kernel
  have hlast : tokens = tokens.take 4 ++ [last] := by decide +kernel
  have hcut : Between source (tokens.take 1) read "a".toList [] "-->b\n/**/-->c".toList :=
    ⟨by decide +kernel, by decide +kernel, .nil, by decide +kernel⟩
  have hgap : Gap "-->c".toList (stopOf (tokens.take 4) == 0) "\n/**/".toList :=
    .newline rfl (.blockComment (by decide) .nil : Gap _ _ (['/', '*'] ++ [] ++ ['*', '/'] ++ []))
  have hcut' : Between source (tokens.take 4) last "a-->b".toList "\n/**/".toList "-->c".toList :=
    ⟨by decide +kernel, by decide +kernel, hgap, by decide +kernel⟩
  refine ⟨hread, hlast, ?_, ?_⟩
  · obtain ⟨hskips, hreads, -⟩ := closeMark_skipped_iff source false hread hcut (by decide +kernel)
    refine hreads fun h => ?_
    exact absurd (hskips.1 h) (by decide +kernel)
  · obtain ⟨hskips, -, -⟩ := closeMark_skipped_iff source false hlast hcut' (by decide +kernel)
    exact hskips.2 (Or.inr (by decide +kernel))

/-- A template over a line end is before the mark on its line, and the mark is skipped. A name that
took the line end is not on the line of the mark, and the mark is read. -/
theorem closeMark_misjudged :
    (∃ front t back before after, tokenize "\x60\n\x60-->a" false = front ++ t :: back ∧
      Between "\x60\n\x60-->a" front t before [] after ∧ ['-', '-', '>'] <+: after ∧
      ¬lastLine (before ++ []) <:+ [] ∧ SkipsLine t (before ++ []) after) ∧
    ∃ front t back before after, tokenize "\\\n-->a" false = front ++ t :: back ∧
      Between "\\\n-->a" front t before [] after ∧ ['-', '-', '>'] <+: after ∧
      lastLine (before ++ []) <:+ [] ∧ ReadsDecrement t back (before ++ []) := by
  constructor
  · refine ⟨(tokenize "\x60\n\x60-->a" false).take 1, ⟨.endOfSource, "", ⟨2, 5, 7⟩, false⟩, [],
      "\x60\n\x60".toList, "-->a".toList, ?_, ⟨?_, ?_, .nil, ?_⟩, ?_, ?_, ?_⟩
    all_goals decide +kernel
  · refine ⟨(tokenize "\\\n-->a" false).take 1,
      ⟨.punctuator .decrement, "--", ⟨1, 2, 2⟩, false⟩, (tokenize "\\\n-->a" false).drop 2,
      "\\\n".toList, "-->a".toList, ?_, ⟨?_, ?_, .nil, ?_⟩, ?_, ?_, rfl, ?_,
      ⟨.punctuator .greaterThan, ">", ⟨1, 4, 4⟩, false⟩, (tokenize "\\\n-->a" false).drop 3,
      .greaterThan, ?_⟩
    all_goals decide +kernel

end Ecma
