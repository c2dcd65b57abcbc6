import Ecma.Proofs.Enclosed
import Ecma.Proofs.Spelling
import Ecma.Proofs.Tiling

/-!
# Only the tokens matter

What stands between two tokens may be replaced by a single space. Each token is settled by its own
text where a space follows it (`settled_lex`), and that text, wherever it stands, is not taken for
the start of a comment (`triviaStart_raw`). One token of the spaced text is `Scanner.next_spaced`,
all of them are `Scanner.tokensAfter_spaced`.
-/

namespace Ecma

open Reader

/-! ## One token -/

/-- Where a valid token was read, its text is read as that token also if a space follows it. -/
def Settled (read : List Char → Lexeme) : Prop :=
  ∀ ⦃cs : List Char⦄, (read cs).kind.isInvalid = false →
    ∃ raw, cs = raw ++ (read cs).rest ∧
      ∀ tail, read (raw ++ ' ' :: tail) = { read cs with rest := ' ' :: tail }

theorem Read.exists_done {α : Type} {f : α → TokenKind} {r : Read α}
    (h : (r.kind f).isInvalid = false) : ∃ a rest, r = .done a rest := by
  cases r with
  | done a rest => exact ⟨a, rest, rfl⟩
  | refused complaint rest => cases h

theorem settled_lexRead {α : Type} (n : Nesting) (f : α → TokenKind) {m : Reader α}
    (hm : Steady m) : Settled fun cs => lexRead n f (m cs) := by
  intro cs h
  obtain ⟨a, rest, hread⟩ := Read.exists_done h
  obtain ⟨raw, rfl, hraw⟩ := hm hread
  simp only [hread]
  refine ⟨raw, rfl, fun tail => ?_⟩
  rw [hraw (GoesOnLike.space rest tail)]
  rfl

theorem settled_lexTemplate (closed opened : TemplatePart) (n : Nesting) :
    Settled (lexTemplate closed opened n) := by
  intro cs h
  obtain ⟨b, rest, hread⟩ := Read.exists_done h
  obtain ⟨raw, rfl, hraw⟩ := enclosed_readTemplate.exact hread
  simp only [lexTemplate, hread]
  refine ⟨raw, rfl, fun tail => ?_⟩
  rw [hraw (' ' :: tail)]
  rfl

theorem settled_lexPunctuator (n : Nesting) (c : Char) : Settled (lexPunctuator n c) := by
  intro cs h
  unfold lexPunctuator at h ⊢
  cases hread : Punctuator.readFrom? c cs with
  | none =>
    rw [hread] at h
    cases h
  | some r =>
    obtain ⟨p, rest⟩ := r
    have hspelling := Punctuator.readFrom?_spelling hread
    obtain ⟨d, raw, hraw, -⟩ := Punctuator.readFrom?_space p []
    rw [hraw] at hspelling
    obtain ⟨rfl, rfl⟩ := List.cons.inj hspelling
    refine ⟨raw, rfl, fun tail => ?_⟩
    obtain ⟨d, raw', hraw', hspace⟩ := Punctuator.readFrom?_space p tail
    rw [hraw] at hraw'
    obtain ⟨rfl, rfl⟩ := List.cons.inj hraw'
    rw [hspace]

/-- Nothing that is glued to a number is left behind it. -/
theorem head?_readNumber {strict : Bool} {first : Char} {cs rest : List Char} {kind : TokenKind}
    (h : readNumber strict first cs = .done kind rest) :
    rest.head?.any isGluedToNumber = false := by
  replace h : Reader.bind (readNumberBody strict first) _ cs = .done kind rest := h
  unfold Reader.bind at h
  split at h
  · rename_i kind' rest' hread
    replace h : (if rest'.head?.any isGluedToNumber then refuse .identifierAfterNumber
      else Pure.pure kind' : Reader TokenKind) rest' = .done kind rest := h
    split at h
    · cases h
    · rename_i hglued
      cases h
      exact Bool.not_eq_true _ ▸ hglued
  · cases h

/-- A point starts a number if a digit comes next, and else is, or starts, a punctuator. -/
theorem lex_point (strict : Bool) (goal : Goal) (n : Nesting) (cs : List Char) :
    lex strict goal n ('.' :: cs) =
      if cs.head?.any isDecimalDigit then lexRead n id (readNumber strict '.' cs)
      else lexPunctuator n '.' cs := by
  have hstart : isIdentifierStart '.' = false := by decide
  have hdigit : isDecimalDigit '.' = false := by decide
  unfold lex
  simp [hstart, hdigit]

theorem settled_lex_point (strict : Bool) (goal : Goal) (n : Nesting) :
    Settled fun cs => lex strict goal n ('.' :: cs) := by
  intro cs h
  simp only [lex_point] at h ⊢
  by_cases hdigit : cs.head?.any isDecimalDigit = true
  · rw [if_pos hdigit] at h ⊢
    obtain ⟨kind, rest, hread⟩ := Read.exists_done h
    obtain ⟨raw, hcs, hraw⟩ := settled_lexRead n id (steady_readNumber strict '.') h
    refine ⟨raw, hcs, fun tail => ?_⟩
    -- the digit is part of the number, so it still comes next
    cases raw with
    | nil =>
      obtain rfl : cs = rest := by simpa [hread, lexRead] using hcs
      have hglued := head?_readNumber hread
      cases cs with
      | nil => cases hdigit
      | cons d cs =>
        have hd : isDecimalDigit d = true := hdigit
        simp [isGluedToNumber, hd] at hglued
    | cons d raw =>
      rw [hcs] at hdigit
      rw [if_pos (by exact hdigit)]
      exact hraw tail
  · rw [if_neg hdigit] at h ⊢
    obtain ⟨raw, hcs, hraw⟩ := settled_lexPunctuator n '.' h
    refine ⟨raw, hcs, fun tail => ?_⟩
    have hnext : ¬(raw ++ ' ' :: tail).head?.any isDecimalDigit = true := by
      rw [Bool.not_eq_true] at hdigit ⊢
      rw [hcs] at hdigit
      exact ((GoesOnLike.space _ tail).append raw).any_head? (isDigitOf_space 10) hdigit
    rw [if_neg hnext]
    exact hraw tail

/-- Behind its first character, the text of a valid token is settled. -/
theorem settled_lex (strict : Bool) (goal : Goal) (n : Nesting) (c : Char) :
    Settled fun cs => lex strict goal n (c :: cs) := by
  by_cases hpoint : c = '.'
  · subst hpoint
    exact settled_lex_point strict goal n
  have hpoint' : (c == '.') = false := by simpa using hpoint
  unfold lex
  simp only [hpoint', Bool.false_and, Bool.or_false]
  split
  · rename_i hstart
    refine settled_lexRead n kindOfName (steady_cons (steady_readName true) fun cs => ?_)
    exact rest_readName_suffix c cs hstart
  split
  · rename_i hquote
    have hmark : c ∈ endMarks := by
      rcases Bool.or_eq_true_iff.1 hquote with h | h <;> simp_all [endMarks]
    exact settled_lexRead n _ (enclosed_readString _ hmark).exact.steady
  split
  · exact settled_lexTemplate .whole .head n
  split
  · exact settled_lexTemplate .tail .middle n.closeSubstitution
  split
  · exact settled_lexRead n _ steady_readRegExp
  split
  · exact settled_lexRead n id (steady_readNumber strict c)
  · exact settled_lexPunctuator n c

/-- The raw text of a valid token is settled. -/
theorem lex_spaced {strict : Bool} {goal : Goal} {n : Nesting} {cs : List Char}
    (h : (lex strict goal n cs).kind.isInvalid = false)
    (hne : (lex strict goal n cs).kind ≠ .endOfSource) :
    ∃ c raw, cs = c :: raw ++ (lex strict goal n cs).rest ∧ ∀ tail,
      lex strict goal n (c :: raw ++ ' ' :: tail) =
        { lex strict goal n cs with rest := ' ' :: tail } := by
  cases cs with
  | nil => exact absurd rfl hne
  | cons c cs =>
    obtain ⟨raw, hcs, hraw⟩ := settled_lex strict goal n c h
    exact ⟨c, raw, congrArg (c :: ·) hcs, hraw⟩

/-! ## What comes before it -/

/-- The marks that open a comment wherever they stand. -/
def commentMarks : List (List Char) := [['/', '/'], ['/', '*'], ['<', '!', '-', '-']]

/-- The marks that open a comment in some places only. -/
def placedMarks : List (List Char) := [['#', '!'], ['-', '-', '>']]

/-- A text that starts with no blank, no line terminator and no mark of a comment is not skipped. -/
theorem triviaStart_eq_none {c : Char} {cs : List Char} (hblank : isBlank c = false)
    (hline : isLineTerminator c = false)
    (hmarks : ∀ mark ∈ commentMarks ++ placedMarks, ¬mark <+: c :: cs) (atStart lineStart : Bool) :
    triviaStart atStart lineStart (c :: cs) = .none := by
  unfold triviaStart
  simp only [hblank, hline, Bool.false_eq_true, if_false]
  split
  · exact absurd ⟨_, rfl⟩ (hmarks ['/', '/'] (by decide))
  · exact absurd ⟨_, rfl⟩ (hmarks ['/', '*'] (by decide))
  · exact absurd ⟨_, rfl⟩ (hmarks ['#', '!'] (by decide))
  · exact absurd ⟨_, rfl⟩ (hmarks ['<', '!', '-', '-'] (by decide))
  · exact absurd ⟨_, rfl⟩ (hmarks ['-', '-', '>'] (by decide))
  · rfl

/-- What is not skipped starts with no blank, no line terminator and no mark that opens a comment
wherever it stands. -/
theorem of_triviaStart_eq_none {atStart lineStart : Bool} {c : Char} {cs : List Char}
    (h : triviaStart atStart lineStart (c :: cs) = .none) :
    isBlank c = false ∧ isLineTerminator c = false ∧ ∀ mark ∈ commentMarks, ¬mark <+: c :: cs := by
  have hblank : isBlank c = false := by
    rw [← Bool.not_eq_true]
    intro hblank
    simp [triviaStart, hblank] at h
  have hline : isLineTerminator c = false := by
    rw [← Bool.not_eq_true]
    intro hline
    simp [triviaStart, hblank, hline] at h
  refine ⟨hblank, hline, ?_⟩
  rintro mark hmark ⟨tail, htail⟩
  rw [← htail] at h
  simp only [commentMarks, List.mem_cons, List.not_mem_nil, or_false] at hmark
  rcases hmark with rfl | rfl | rfl <;> cases h

theorem skipTrivia_of_none {lineStart atStart newline : Bool} {c : Char} {cs : List Char}
    (h : ∀ atStart lineStart, triviaStart atStart lineStart (c :: cs) = .none) :
    skipTrivia lineStart atStart newline (c :: cs) = .gap newline (c :: cs) := by
  rw [skipTrivia, h]

theorem skipTrivia_space (lineStart atStart newline : Bool) (cs : List Char) :
    skipTrivia lineStart atStart newline (' ' :: cs) = skipTrivia lineStart false newline cs := by
  have hstart : triviaStart atStart (lineStart || newline) (' ' :: cs) = .blank := rfl
  rw [skipTrivia, hstart]

/-- A text without spaces that opens a text with a space behind its front opens the front. -/
theorem prefix_of_space {mark front tail : List Char} (hspace : ' ' ∉ mark)
    (h : mark <+: front ++ ' ' :: tail) : mark <+: front := by
  rcases List.prefix_or_prefix_of_prefix h (List.prefix_append front _) with hfront | ⟨more, rfl⟩
  · exact hfront
  · rw [List.prefix_append_right_inj] at h
    cases more with
    | nil => simp
    | cons c more =>
      obtain rfl : c = ' ' := (List.cons_prefix_cons.1 h).1
      exact absurd (by simp) hspace

theorem lex_hash (strict : Bool) (goal : Goal) (n : Nesting) (cs : List Char) :
    lex strict goal n ('#' :: cs) = ⟨.invalid (.unexpected '#'), cs, n⟩ := by
  have hstart : isIdentifierStart '#' = false := by decide
  have hdigit : isDecimalDigit '#' = false := by decide
  simp [lex, hstart, hdigit, lexPunctuator, Punctuator.readFrom?]

theorem lex_decrement (strict : Bool) (goal : Goal) (n : Nesting) (cs : List Char) :
    lex strict goal n ('-' :: '-' :: cs) = ⟨.punctuator .decrement, cs, n⟩ := by
  have hstart : isIdentifierStart '-' = false := by decide
  have hdigit : isDecimalDigit '-' = false := by decide
  simp [lex, hstart, hdigit, lexPunctuator, Punctuator.readFrom?, Punctuator.readSign,
    nestingOfPunctuator]

/-- No valid token starts with a mark that opens a comment in some places. -/
theorem not_placedMark_lex {strict : Bool} {goal : Goal} {n : Nesting} {raw rest : List Char}
    (hvalid : (lex strict goal n (raw ++ rest)).kind.isInvalid = false)
    (hrest : (lex strict goal n (raw ++ rest)).rest = rest) :
    ∀ mark ∈ placedMarks, ¬mark <+: raw := by
  rintro mark hmark ⟨more, rfl⟩
  simp only [placedMarks, List.mem_cons, List.not_mem_nil, or_false] at hmark
  rcases hmark with rfl | rfl
  · simp only [List.cons_append, lex_hash] at hvalid
    cases hvalid
  · simp only [List.cons_append, lex_decrement] at hrest
    have hlength := congrArg List.length hrest
    simp at hlength
    omega

/-- Where a valid token stands behind a gap, its text is not skipped with a space behind it,
wherever it then stands. -/
theorem triviaStart_raw {strict : Bool} {goal : Goal} {n : Nesting} {c : Char}
    {raw rest : List Char}
    (hvalid : (lex strict goal n (c :: raw ++ rest)).kind.isInvalid = false)
    (hrest : (lex strict goal n (c :: raw ++ rest)).rest = rest) {atStart lineStart : Bool}
    (hstart : triviaStart atStart lineStart (c :: raw ++ rest) = .none) (tail : List Char)
    (atStart' lineStart' : Bool) :
    triviaStart atStart' lineStart' (c :: raw ++ ' ' :: tail) = .none := by
  obtain ⟨hblank, hline, hmarks⟩ := of_triviaStart_eq_none hstart
  refine triviaStart_eq_none hblank hline (fun mark hmark hopens => ?_) atStart' lineStart'
  have hspace : ∀ mark ∈ commentMarks ++ placedMarks, ' ' ∉ mark := by decide
  have hraw : mark <+: c :: raw := prefix_of_space (hspace mark hmark) hopens
  rcases List.mem_append.1 hmark with hmark | hmark
  · exact hmarks mark hmark (hraw.trans (List.prefix_append _ _))
  · exact not_placedMark_lex hvalid hrest mark hmark hraw

/-! ## Runs -/

namespace Scanner

/-- A scanner of the spaced text stands before the next token like a scanner of the source. -/
structure Spaced (s : Scanner) (text : List Char) (s' : Scanner) : Prop where
  rest_eq : s'.rest = text ∨ s'.rest = ' ' :: text
  nesting_eq : s'.nesting = s.nesting
  strict_eq : s'.strict = s.strict

theorem Spaced.skipTrivia_eq {s s' : Scanner} {c : Char} {cs : List Char}
    (h : s.Spaced (c :: cs) s')
    (hstart : ∀ atStart lineStart, triviaStart atStart lineStart (c :: cs) = .none) :
    skipTrivia s'.lineStart (s'.position.offset == 0) false s'.rest = .gap false (c :: cs) := by
  rcases h.rest_eq with hrest | hrest
  · rw [hrest, skipTrivia_of_none hstart]
  · rw [hrest, skipTrivia_space, skipTrivia_of_none hstart]

/-- A valid token is read from its own text and a space. -/
theorem next_spaced {goal : Goal} {s s' : Scanner} {tail : List Char}
    (hvalid : (s.next goal).1.kind.isInvalid = false)
    (hne : (s.next goal).1.kind ≠ .endOfSource)
    (h : s.Spaced ((s.next goal).1.raw.toList ++ ' ' :: tail) s') :
    (s'.next goal).1.kind = (s.next goal).1.kind ∧ (s'.next goal).1.raw = (s.next goal).1.raw ∧
      (s.next goal).2.Spaced tail (s'.next goal).2 := by
  obtain ⟨newline, rest, hgap⟩ := exists_gap hvalid
  rw [next_of_gap hgap] at hvalid hne h ⊢
  obtain ⟨c, raw, hcs, hraw⟩ := lex_spaced hvalid hne
  generalize hl : lex s.strict goal s.nesting rest = l at hcs hraw
  subst hcs
  have htext : textBefore (c :: raw ++ l.rest) l.rest = c :: raw := textBefore_append_left _ _
  simp only [finishGap, hl, htext, String.toList_ofList] at hvalid h ⊢
  obtain ⟨atStart, lineStart, hstart⟩ := triviaStart_of_skipTrivia hgap
  have hgap' : skipTrivia s'.lineStart (s'.position.offset == 0) false s'.rest =
      .gap false (c :: raw ++ ' ' :: tail) :=
    h.skipTrivia_eq (triviaStart_raw (by rw [hl]; exact hvalid) (by rw [hl]) hstart tail)
  have htext' : textBefore (c :: raw ++ ' ' :: tail) (' ' :: tail) = c :: raw :=
    textBefore_append_left _ _
  rw [next_of_gap hgap']
  simp only [finishGap, h.strict_eq, h.nesting_eq, hraw, htext']
  exact ⟨trivial, trivial, Or.inr rfl, rfl, rfl⟩

theorem raw_of_endOfSource {goal : Goal} {s : Scanner} (h : (s.next goal).1.kind = .endOfSource) :
    (s.next goal).1.raw = "" := by
  obtain ⟨gap, raw, hreads⟩ := next_reads goal s
  rw [hreads.raw_eq, (hreads.at_end h).1, String.ofList_nil]

/-- The end of the source is read where nothing but a space is left. -/
theorem next_spaced_end {goal : Goal} {s s' : Scanner} (h : s.Spaced [] s') :
    (s'.next goal).1.kind = .endOfSource := by
  have hgap : skipTrivia s'.lineStart (s'.position.offset == 0) false s'.rest = .gap false [] := by
    rcases h.rest_eq with hrest | hrest
    · rw [hrest, skipTrivia]
    · rw [hrest, skipTrivia_space, skipTrivia]
  rw [next_of_gap hgap]
  rfl

theorem tokensAfter_ne_nil (previous : Option TokenKind) (s : Scanner) :
    s.tokensAfter previous ≠ [] := by
  unfold tokensAfter
  split <;> exact nofun

/-- The texts of the tokens, with spaces between them. -/
def spacedText (tokens : List Token) : List Char :=
  [' '].intercalate (tokens.map fun t => t.raw.toList)

theorem spacedText_cons (t : Token) {tokens : List Token} (h : tokens ≠ []) :
    spacedText (t :: tokens) = t.raw.toList ++ ' ' :: spacedText tokens := by
  obtain ⟨u, tokens, rfl⟩ := List.exists_cons_of_ne_nil h
  simp [spacedText, List.intercalate_cons_cons]

/-- The tokens of the spaced text are the tokens of the source. -/
theorem tokensAfter_spaced (previous : Option TokenKind) {s s' : Scanner}
    (hvalid : ∀ t ∈ s.tokensAfter previous, t.kind.isInvalid = false)
    (h : s.Spaced (spacedText (s.tokensAfter previous)) s') :
    (s'.tokensAfter previous).map (fun t => (t.kind, t.raw)) =
      (s.tokensAfter previous).map fun t => (t.kind, t.raw) := by
  fun_induction tokensAfter previous s generalizing s' with
  | case1 previous s hend =>
    have hraw : (s.nextAfter previous).1.raw = "" := raw_of_endOfSource hend
    have htext : spacedText [(s.nextAfter previous).1] = [] := by simp [spacedText, hraw]
    rw [htext] at h
    have hend' : (s'.nextAfter previous).1.kind = .endOfSource := next_spaced_end h
    have hraw' : (s'.nextAfter previous).1.raw = "" := raw_of_endOfSource hend'
    rw [tokensAfter, dif_pos hend']
    simp only [List.map_cons, List.map_nil, hend, hend', hraw, hraw']
  | case2 previous s hne t =>
    rename_i ih
    rw [spacedText_cons t (tokensAfter_ne_nil _ _)] at h
    obtain ⟨hkind, hraw, hspaced⟩ := next_spaced (hvalid t List.mem_cons_self) hne h
    have hne' : (s'.nextAfter previous).1.kind ≠ .endOfSource := by
      rw [nextAfter, hkind]
      exact hne
    have htail := ih (fun u hu => hvalid u (List.mem_cons_of_mem t hu)) hspaced
    rw [tokensAfter, dif_neg hne']
    simp only [List.map_cons, nextAfter, hkind, hraw]
    exact congrArg _ htail

end Scanner

/-- Whatever stands between the tokens of a source, if all of them are valid then a single space
does as well: the texts of the tokens, joined with spaces, have the same tokens. -/
theorem tokenize_spaced (source : String) (strict : Bool)
    (h : ∀ t ∈ tokenize source strict, t.kind.isInvalid = false) :
    (tokenize (" ".intercalate ((tokenize source strict).map Token.raw)) strict).map
        (fun t => (t.kind, t.raw)) =
      (tokenize source strict).map fun t => (t.kind, t.raw) := by
  refine Scanner.tokensAfter_spaced none h ⟨Or.inl ?_, rfl, rfl⟩
  simp only [Scanner.ofString, String.toList_intercalate, List.map_map, Scanner.spacedText]
  rfl

/-- Comments of all forms, a template and both readings of a slash. -/
theorem tokenize_spaced_comments :
    let source := "#!x\na/b/*c*/<!--d\n-->e\n+\x60f$\x7b/g/\x7d\x60"
    (∀ t ∈ tokenize source false, t.kind.isInvalid = false) ∧
      (tokenize (" ".intercalate ((tokenize source false).map Token.raw)) false).map
          (fun t => (t.kind, t.raw)) =
        (tokenize source false).map fun t => (t.kind, t.raw) := by
  have h : ∀ t ∈ tokenize "#!x\na/b/*c*/<!--d\n-->e\n+\x60f$\x7b/g/\x7d\x60" false,
      t.kind.isInvalid = false := by decide +kernel
  exact ⟨h, tokenize_spaced _ false h⟩

end Ecma
