import Ecma.Proofs.Carrying

/-!
# Tokens tile the source

Whatever goals a scanner is given, its tokens and the gaps between them are the source, cut into
pieces in order: each token's raw text is the slice of the source at its offset, and only gaps are
left out. What one call consumes is `Scanner.Reads`; `Scanner.tiles_run` is what all calls together
do. The end of the source is met after at most one token per character
(`Scanner.length_tokensAfter_le`).
-/

namespace Ecma

/-! ## Bytes -/

theorem utf8ByteSize_ofList_cons (c : Char) (cs : List Char) :
    (String.ofList (c :: cs)).utf8ByteSize = c.utf8Size + (String.ofList cs).utf8ByteSize := by
  rw [String.ofList_cons, String.utf8ByteSize_append, String.utf8ByteSize_singleton]

namespace Position

/-- However lines are counted, the offset grows by the bytes of the text. -/
theorem offset_advance (p : Position) (cs : List Char) :
    (p.advance cs).offset = p.offset + (String.ofList cs).utf8ByteSize := by
  fun_induction advance p cs with
  | case1 p => rfl
  | case2 p cs ih =>
    have hr : Char.utf8Size '\r' = 1 := rfl
    have hn : Char.utf8Size '\n' = 1 := rfl
    rw [ih, utf8ByteSize_ofList_cons, utf8ByteSize_ofList_cons]
    simp only
    omega
  | case3 p c cs _ ih =>
    rw [ih, utf8ByteSize_ofList_cons]
    split <;> simp only [behindLineEnd, behindChar] <;> omega

theorem offset_advanceInLine (p : Position) (cs : List Char) :
    (p.advanceInLine cs).offset = p.offset + (String.ofList cs).utf8ByteSize := by
  induction cs generalizing p with
  | nil => rfl
  | cons c cs ih =>
    rw [advanceInLine, List.foldl_cons, ← advanceInLine, ih, utf8ByteSize_ofList_cons]
    simp only [behindChar]
    omega

end Position

/-- The bytes of the source between two offsets are a text, and both offsets are on character
boundaries. -/
structure IsSlice (source : String) (start stop : Nat) (text : String) : Prop where
  start_valid : String.Pos.Raw.IsValid source ⟨start⟩
  stop_valid : String.Pos.Raw.IsValid source ⟨stop⟩
  bytes_eq : source.toByteArray.extract start stop = text.toByteArray

theorem isSlice_append (before text after : String) :
    IsSlice (before ++ text ++ after) before.utf8ByteSize (before ++ text).utf8ByteSize text := by
  refine ⟨?_, ?_, ?_⟩
  · exact String.Pos.Raw.isValid_iff_exists_append.2
      ⟨before, text ++ after, String.append_assoc, rfl⟩
  · exact String.Pos.Raw.isValid_iff_exists_append.2 ⟨before ++ text, after, rfl, rfl⟩
  · rw [String.toByteArray_append, ← String.size_toByteArray, ← String.size_toByteArray,
      ByteArray.extract_append_size_left, String.toByteArray_append]
    exact ByteArray.extract_append_eq_right rfl (ByteArray.size_append)

/-! ## Tilings -/

/-- The offset behind a token. -/
def Token.stop (t : Token) : Nat := t.position.offset + t.raw.utf8ByteSize

/-- The source has only a gap between two offsets. -/
def OnlyGap (source : String) (start stop : Nat) : Prop :=
  ∃ before gap after : String, source = before ++ gap ++ after ∧ before.utf8ByteSize = start ∧
    (before ++ gap).utf8ByteSize = stop ∧ Gap after.toList (start == 0) gap.toList

/-- From an offset on, the tokens are slices of the source with only gaps before them, and all but
the end of the source have some text. -/
inductive Tiles (source : String) : Nat → List Token → Prop where
  | nil (offset : Nat) : Tiles source offset []
  | cons {offset : Nat} {t : Token} {tokens : List Token}
      (hgap : OnlyGap source offset t.position.offset)
      (hslice : IsSlice source t.position.offset t.stop t.raw)
      (hne : t.kind ≠ .endOfSource → t.raw ≠ "") (h : Tiles source t.stop tokens) :
      Tiles source offset (t :: tokens)

theorem OnlyGap.le {source : String} {start stop : Nat} (h : OnlyGap source start stop) :
    start ≤ stop := by
  obtain ⟨before, gap, after, -, rfl, rfl, -⟩ := h
  rw [String.utf8ByteSize_append]
  exact Nat.le_add_right _ _

/-- Tiles do not overlap. -/
theorem Tiles.ordered {source : String} {offset : Nat} {tokens : List Token}
    (h : Tiles source offset tokens) :
    (∀ t ∈ tokens, offset ≤ t.position.offset) ∧
      tokens.Pairwise fun a b => a.stop ≤ b.position.offset := by
  induction h with
  | nil => exact ⟨fun t ht => absurd ht List.not_mem_nil, .nil⟩
  | cons hgap hslice hne h ih =>
    rename_i offset t tokens
    refine ⟨fun u hu => ?_, .cons (fun u hu => ih.1 u hu) ih.2⟩
    have hstop : t.position.offset ≤ t.stop := Nat.le_add_right _ _
    rcases List.mem_cons.1 hu with rfl | hu
    · exact hgap.le
    · exact (hgap.le.trans hstop).trans (ih.1 u hu)

/-! ## One token -/

namespace Scanner

/-- A scanner reads a token behind a gap and is left behind the token. -/
structure Reads (s : Scanner) (gap raw : List Char) (t : Token) (s' : Scanner) : Prop where
  rest_eq : s.rest = gap ++ (raw ++ s'.rest)
  isGap : Gap (raw ++ s'.rest) (s.position.offset == 0) gap
  raw_eq : t.raw = String.ofList raw
  offset_eq : t.position.offset = s.position.offset + (String.ofList gap).utf8ByteSize
  offset_after : s'.position.offset = t.position.offset + (String.ofList raw).utf8ByteSize
  raw_ne_nil : t.kind ≠ .endOfSource → raw ≠ []
  at_end : t.kind = .endOfSource → raw = [] ∧ s'.rest = []

theorem offset_positionBehind (p : Position) (kind : TokenKind) (raw : List Char) :
    (positionBehind p kind raw).offset = p.offset + (String.ofList raw).utf8ByteSize := by
  unfold positionBehind
  split
  · exact p.offset_advanceInLine raw
  · exact p.offset_advance raw

theorem finishUnclosed_reads {s : Scanner} {gap comment : List Char}
    (hrest : s.rest = gap ++ comment) (hgap : Gap comment (s.position.offset == 0) gap)
    (hne : comment ≠ []) :
    s.Reads gap comment (s.finishUnclosed comment).1 (s.finishUnclosed comment).2 := by
  have hstart : textBefore s.rest comment = gap := by rw [hrest, textBefore_append_left]
  refine ⟨?_, ?_, rfl, ?_, Position.offset_advance _ _, fun _ => hne, nofun⟩
  · rw [hrest]
    simp [finishUnclosed]
  · simpa [finishUnclosed] using hgap
  · rw [finishUnclosed, hstart]
    exact Position.offset_advance _ _

theorem finishGap_reads {s : Scanner} {gap rest : List Char} (goal : Goal) (newline : Bool)
    (hrest : s.rest = gap ++ rest) (hgap : Gap rest (s.position.offset == 0) gap) :
    ∃ raw, s.Reads gap raw (s.finishGap goal newline rest).1 (s.finishGap goal newline rest).2 := by
  have hstart : textBefore s.rest rest = gap := by rw [hrest, textBefore_append_left]
  have hsuffix : (lex s.strict goal s.nesting rest).rest <:+ rest := by
    cases rest with
    | nil => exact List.suffix_rfl
    | cons c cs => exact (rest_lex_suffix ..).trans (List.suffix_cons c cs)
  have hraw := textBefore_append hsuffix
  refine ⟨textBefore rest (lex s.strict goal s.nesting rest).rest, ?_, ?_, rfl, ?_, ?_, ?_, ?_⟩
  · rw [hrest]
    exact congrArg (gap ++ ·) hraw.symm
  · have heq : textBefore rest (lex s.strict goal s.nesting rest).rest ++
        (s.finishGap goal newline rest).2.rest = rest := hraw
    rw [heq]
    exact hgap
  · rw [finishGap, hstart]
    exact Position.offset_advance _ _
  · exact offset_positionBehind _ _ _
  · intro hk hnil
    have hlt := rest_lex_length hk
    have heq := congrArg List.length hraw
    rw [hnil, List.nil_append] at heq
    omega
  · intro hk
    cases rest with
    | nil => exact ⟨rfl, rfl⟩
    | cons c cs => exact absurd hk (kind_lex_ne _ _ _ _ _)

/-- Every call reads a token. -/
theorem next_reads (goal : Goal) (s : Scanner) :
    ∃ gap raw, s.Reads gap raw (s.next goal).1 (s.next goal).2 := by
  obtain ⟨gap, hrest, hgap⟩ := gap_skipTrivia s.lineStart (s.position.offset == 0) false s.rest
  rw [next_eq]
  split
  · rename_i comment heq
    rw [heq] at hrest hgap
    exact ⟨gap, comment, finishUnclosed_reads hrest hgap (unclosed_ne_nil heq)⟩
  · rename_i newline rest heq
    rw [heq] at hrest hgap
    exact ⟨gap, finishGap_reads goal newline hrest hgap⟩

/-! ## Runs -/

/-- The tokens that a scanner gives for a sequence of goals. -/
def run : List Goal → Scanner → List Token
  | [], _ => []
  | goal :: goals, s => (s.next goal).1 :: run goals (s.next goal).2

/-- A scanner is inside a source, at the position that it says. -/
def At (source : String) (s : Scanner) : Prop :=
  ∃ before : String, source = before ++ String.ofList s.rest ∧
    s.position.offset = before.utf8ByteSize

theorem at_ofString (source : String) (strict : Bool) : (ofString source strict).At source :=
  ⟨"", by simp [ofString], rfl⟩

/-- A token is a tile of the source, and the scanner stays inside the source behind it. -/
theorem Reads.tile {source : String} {s s' : Scanner} {gap raw : List Char} {t : Token}
    (h : s.Reads gap raw t s') (hs : s.At source) :
    OnlyGap source s.position.offset t.position.offset ∧
      IsSlice source t.position.offset t.stop t.raw ∧ s'.At source ∧
      s'.position.offset = t.stop := by
  obtain ⟨before, hsource, hoffset⟩ := hs
  have hstart : t.position.offset = (before ++ String.ofList gap).utf8ByteSize := by
    rw [h.offset_eq, hoffset, String.utf8ByteSize_append]
  have hstop : t.stop = (before ++ String.ofList gap ++ String.ofList raw).utf8ByteSize := by
    rw [Token.stop, hstart, h.raw_eq]
    simp only [String.utf8ByteSize_append]
  have hcut : source =
      before ++ String.ofList gap ++ String.ofList raw ++ String.ofList s'.rest := by
    rw [hsource, h.rest_eq, String.ofList_append, String.ofList_append]
    simp only [String.append_assoc]
  refine ⟨⟨before, String.ofList gap, String.ofList (raw ++ s'.rest), ?_, hoffset.symm,
    hstart.symm, ?_⟩, ?_, ⟨_, hcut, ?_⟩, ?_⟩
  · rw [hcut, String.ofList_append]
    simp only [String.append_assoc]
  · simpa using h.isGap
  · rw [hstart, hstop, h.raw_eq, hcut]
    exact isSlice_append _ _ _
  · rw [h.offset_after, ← hstop, Token.stop, h.raw_eq]
  · rw [h.offset_after, Token.stop, h.raw_eq]

/-- Whatever the goals, the tokens tile the source. -/
theorem tiles_run {source : String} (goals : List Goal) {s : Scanner} (hs : s.At source) :
    Tiles source s.position.offset (s.run goals) := by
  induction goals generalizing s with
  | nil => exact .nil _
  | cons goal goals ih =>
    obtain ⟨gap, raw, h⟩ := next_reads goal s
    obtain ⟨hgap, hslice, hs', hstop⟩ := h.tile hs
    have hrest := ih hs'
    rw [hstop] at hrest
    refine .cons hgap hslice (fun hk => ?_) hrest
    rw [h.raw_eq]
    simpa using h.raw_ne_nil hk

/-! ## All tokens -/

/-- The tokens start with the next one, and go on behind it unless the source ends. -/
theorem tokensAfter_eq_cons {previous : Option TokenKind} {s : Scanner} {t : Token}
    {back : List Token} (h : s.tokensAfter previous = t :: back) :
    (s.nextAfter previous).1 = t ∧
      (t.kind ≠ .endOfSource →
        ∃ previous', back = (s.nextAfter previous).2.tokensAfter previous') := by
  rw [tokensAfter] at h
  split at h
  · rename_i hend
    obtain ⟨rfl, -⟩ := List.cons.inj h
    exact ⟨rfl, fun hne => absurd hend hne⟩
  · obtain ⟨rfl, rfl⟩ := List.cons.inj h
    exact ⟨rfl, fun _ => ⟨_, rfl⟩⟩

/-- What holds before the first token and is kept by every token but the end of the source holds
before each token, of the tokens before it. -/
theorem tokensAfter_cut (Inv : List Token → Scanner → Prop)
    (hstep : ∀ past s goal, Inv past s → (s.next goal).1.kind ≠ .endOfSource →
      Inv (past ++ [(s.next goal).1]) (s.next goal).2)
    (previous : Option TokenKind) {s : Scanner} {front back : List Token} {t : Token}
    (hs : Inv [] s) (h : s.tokensAfter previous = front ++ t :: back) :
    ∃ previous' s', Inv front s' ∧ s'.tokensAfter previous' = t :: back := by
  fun_induction tokensAfter previous s generalizing Inv front with
  | case1 previous s hend =>
    cases front with
    | nil => exact ⟨previous, s, hs, by rw [tokensAfter, dif_pos hend]; exact h⟩
    | cons u front =>
      obtain ⟨-, hnil⟩ := List.cons.inj h
      simp at hnil
  | case2 previous s hend u =>
    rename_i ih
    cases front with
    | nil => exact ⟨previous, s, hs, by rw [tokensAfter, dif_neg hend]; exact h⟩
    | cons u' front =>
      obtain ⟨rfl, hrest⟩ := List.cons.inj h
      -- from here on, the first token is one of the past
      exact ih (fun past s => Inv (u :: past) s) (fun past => hstep (u :: past))
        (hstep [] s _ hs hend) hrest

/-- Each goal that the tokens give is one that could have been given from outside. -/
theorem tokensAfter_eq_run (previous : Option TokenKind) (s : Scanner) :
    ∃ goals, s.tokensAfter previous = s.run goals := by
  fun_induction tokensAfter previous s with
  | case1 previous s h => exact ⟨[.after previous], rfl⟩
  | case2 previous s h t ih =>
    obtain ⟨goals, hgoals⟩ := ih
    exact ⟨.after previous :: goals, congrArg (t :: ·) hgoals⟩

theorem length_tokensAfter_le (previous : Option TokenKind) (s : Scanner) :
    (s.tokensAfter previous).length ≤ s.rest.length + 1 := by
  fun_induction tokensAfter previous s with
  | case1 previous s h => simp
  | case2 previous s h t ih =>
    have hlt : (s.nextAfter previous).2.rest.length < s.rest.length := rest_next_length h
    exact Nat.succ_le_succ (ih.trans hlt)

/-- The end of the source comes last, comes once, and comes behind all of the source. -/
theorem tokensAfter_ends {source : String} (previous : Option TokenKind) {s : Scanner}
    (hs : s.At source) :
    ∃ tokens last, s.tokensAfter previous = tokens ++ [last] ∧ last.kind = .endOfSource ∧
      last.raw = "" ∧ last.position.offset = source.utf8ByteSize ∧
      ∀ t ∈ tokens, t.kind ≠ .endOfSource := by
  fun_induction tokensAfter previous s with
  | case1 previous s h =>
    obtain ⟨gap, raw, hreads⟩ := next_reads (.after previous) s
    obtain ⟨-, -, ⟨before, hsource, hoffset⟩, hstop⟩ := hreads.tile hs
    obtain ⟨rfl, hrest⟩ := hreads.at_end h
    rw [hrest, String.ofList_nil, String.append_empty] at hsource
    refine ⟨[], _, rfl, h, hreads.raw_eq, ?_, nofun⟩
    rw [hsource, ← hoffset, hreads.offset_after]
    rfl
  | case2 previous s h t ih =>
    obtain ⟨gap, raw, hreads⟩ := next_reads (.after previous) s
    obtain ⟨-, -, hs', -⟩ := hreads.tile hs
    obtain ⟨tokens, last, htokens, hlast, hraw, hoffset, hne⟩ := ih hs'
    refine ⟨t :: tokens, last, congrArg (t :: ·) htokens, hlast, hraw, hoffset, ?_⟩
    intro u hu
    rcases List.mem_cons.1 hu with rfl | hu
    · exact h
    · exact hne u hu

end Scanner

/-- For every sequence of goals, the tokens of a source are slices of it at their offsets, in order
and without overlap, with only gaps before them, and none but the end of the source is empty. With
the goals that the tokens themselves give, there are at most as many tokens as characters and the
end of the source, which comes last, once, and behind all of the source. -/
theorem tokens_tile_source (source : String) (strict : Bool) :
    (∀ goals, Tiles source 0 ((Scanner.ofString source strict).run goals) ∧
      ((Scanner.ofString source strict).run goals).Pairwise fun a b =>
        a.stop ≤ b.position.offset) ∧
    (∃ goals, tokenize source strict = (Scanner.ofString source strict).run goals) ∧
    (tokenize source strict).length ≤ source.length + 1 ∧
    ∃ tokens last, tokenize source strict = tokens ++ [last] ∧ last.kind = .endOfSource ∧
      last.raw = "" ∧ last.position.offset = source.utf8ByteSize ∧
      ∀ t ∈ tokens, t.kind ≠ .endOfSource := by
  have hs := Scanner.at_ofString source strict
  refine ⟨fun goals => ?_, ?_, ?_, ?_⟩
  · have htiles := Scanner.tiles_run goals hs
    exact ⟨htiles, htiles.ordered.2⟩
  · exact Scanner.tokensAfter_eq_run none _
  · rw [← String.length_toList]
    exact Scanner.length_tokensAfter_le none _
  · exact Scanner.tokensAfter_ends none hs

end Ecma
