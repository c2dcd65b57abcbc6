import Ecma.Proofs.Spacing
import Ecma.Proofs.Trimming

/-!
# White space in sources and in texts

White space may stand between the tokens of a source and at the ends of a text that is a number.
What the scanner skips is what is trimmed from a text, but for the control character next line,
which is skipped and not trimmed (`isBlank_or_isLineTerminator`). Where no comment can start, a
source without tokens is therefore one of which trimming leaves nothing, or one with that character
in it.
-/

namespace Ecma

/-- The control character next line. -/
def nextLine : Char := '\u0085'

/-- The characters that a comment may start with. -/
def commentStarts : List Char := ['/', '#', '<', '-']

/-- What the scanner skips is what is trimmed, and the control character next line. -/
theorem isBlank_or_isLineTerminator (c : Char) :
    (isBlank c || isLineTerminator c) = (isTrimmed c || c == nextLine) := by
  have hmark : c = byteOrderMark ↔ c.toNat = 0xFEFF := Char.toNat_inj.symm
  have hfeed : c = '\n' ↔ c.toNat = 0x0A := Char.toNat_inj.symm
  have hreturn : c = '\r' ↔ c.toNat = 0x0D := Char.toNat_inj.symm
  have hline : c = '\u2028' ↔ c.toNat = 0x2028 := Char.toNat_inj.symm
  have hparagraph : c = '\u2029' ↔ c.toNat = 0x2029 := Char.toNat_inj.symm
  have hnext : c = '\u0085' ↔ c.toNat = 0x85 := Char.toNat_inj.symm
  rw [Bool.eq_iff_iff]
  simp only [isBlank, isLineTerminator, isTrimmed, isUnicodeSpace, nextLine, Bool.or_eq_true,
    Bool.and_eq_true, Bool.not_eq_true', Bool.or_eq_false_iff, beq_eq_false_iff_ne, bne_iff_ne,
    beq_iff_eq, ne_eq, decide_eq_true_eq, hmark, hfeed, hreturn, hline, hparagraph, hnext]
  omega

theorem triviaStart_of_notMem {c : Char} (hc : c ∉ commentStarts) (atStart lineStart : Bool)
    (cs : List Char) :
    triviaStart atStart lineStart (c :: cs) =
      if isBlank c then .blank else if isLineTerminator c then .newline else .none := by
  simp only [commentStarts, List.mem_cons, List.not_mem_nil, or_false, not_or] at hc
  unfold triviaStart
  dsimp only
  split
  · rfl
  split
  · rfl
  split
  · exact absurd rfl hc.1
  · exact absurd rfl hc.1
  · exact absurd rfl hc.2.1
  · exact absurd rfl hc.2.2.1
  · exact absurd rfl hc.2.2.2
  · rfl

/-- Where no comment can start, what is skipped is spaces, up to the first character that is none.
-/
theorem skipTrivia_of_notMem {cs : List Char} (h : ∀ c ∈ cs, c ∉ commentStarts)
    (lineStart atStart newline : Bool) :
    ∃ crossed, skipTrivia lineStart atStart newline cs =
      .gap crossed (cs.dropWhile fun c => isTrimmed c || c == nextLine) := by
  induction cs generalizing atStart newline with
  | nil => exact ⟨newline, by rw [skipTrivia]; rfl⟩
  | cons c cs ih =>
    obtain ⟨hc, hcs⟩ := List.forall_mem_cons.1 h
    have hspace := isBlank_or_isLineTerminator c
    rw [skipTrivia, triviaStart_of_notMem hc]
    by_cases hblank : isBlank c = true
    · rw [hblank, Bool.true_or] at hspace
      rw [if_pos hblank, List.dropWhile_cons, if_pos hspace.symm]
      exact ih hcs false newline
    by_cases hline : isLineTerminator c = true
    · rw [hline, Bool.or_true] at hspace
      rw [if_neg hblank, if_pos hline, List.dropWhile_cons, if_pos hspace.symm]
      exact ih hcs false true
    · rw [Bool.not_eq_true] at hblank hline
      rw [hblank, hline] at hspace
      refine ⟨newline, ?_⟩
      rw [hblank, hline, if_neg Bool.false_ne_true, if_neg Bool.false_ne_true, List.dropWhile_cons,
        ← hspace]
      rfl

namespace Scanner

theorem kinds_eq_endOfSource_iff {s : Scanner} {previous : Option TokenKind} :
    (s.tokensAfter previous).map Token.kind = [.endOfSource] ↔
      (s.nextAfter previous).1.kind = .endOfSource := by
  rw [tokensAfter]
  split
  · rename_i hend
    exact iff_of_true (congrArg (fun kind => [kind]) hend) hend
  · rename_i hend
    exact iff_of_false (fun h => hend (List.cons.inj h).1) hend

/-- Where no comment can start, the next token is the end of the source exactly if all that is left
of it is skipped. -/
theorem kind_next_eq_endOfSource_iff {s : Scanner} (h : ∀ c ∈ s.rest, c ∉ commentStarts)
    (goal : Goal) :
    (s.next goal).1.kind = .endOfSource ↔
      ∀ c ∈ s.rest, (isTrimmed c || c == nextLine) = true := by
  obtain ⟨crossed, hskip⟩ := skipTrivia_of_notMem h s.lineStart (s.position.offset == 0) false
  rw [next_of_gap hskip, ← List.dropWhile_eq_nil_iff]
  cases hrest : s.rest.dropWhile fun c => isTrimmed c || c == nextLine with
  | nil => exact iff_of_true rfl rfl
  | cons c cs => exact iff_of_false (kind_lex_ne _ _ _ _ _) (List.cons_ne_nil _ _)

end Scanner

/-- Where no comment can start, a source has no token before its end exactly if nothing is left of
it by trimming once the control characters next line are taken out of it. A source without these has
no token before its end exactly if trimming leaves nothing; and wherever trimming leaves nothing,
the source has no token before its end and is read as zero when it is taken for a text. -/
theorem only_end_iff_trimmed (source : String) (strict : Bool)
    (h : ∀ c ∈ source.toList, c ∉ commentStarts) :
    ((tokenize source strict).map Token.kind = [.endOfSource] ↔
      trimBoth isTrimmed (source.toList.filter (· != nextLine)) = []) ∧
    (nextLine ∉ source.toList → ((tokenize source strict).map Token.kind = [.endOfSource] ↔
      trimBoth isTrimmed source.toList = [])) ∧
    (trimBoth isTrimmed source.toList = [] →
      (tokenize source strict).map Token.kind = [.endOfSource] ∧
        numberOfText (.ofString source) = .zero) := by
  have hend : (tokenize source strict).map Token.kind = [.endOfSource] ↔
      trimBoth isTrimmed (source.toList.filter (· != nextLine)) = [] := by
    rw [tokenize, Scanner.tokens, Scanner.kinds_eq_endOfSource_iff, Scanner.nextAfter,
      Scanner.kind_next_eq_endOfSource_iff h, trimBoth_eq_nil_iff]
    refine forall_congr' fun c => ?_
    rw [List.mem_filter, and_imp]
    refine imp_congr_right fun _ => ?_
    simp [or_iff_not_imp_right]
  refine ⟨hend, fun hnext => ?_, fun hnil => ⟨hend.2 ?_, ?_⟩⟩
  · rw [hend, List.filter_eq_self.2 fun c hc => ?_]
    rw [bne_iff_ne]
    rintro rfl
    exact hnext hc
  · rw [trimBoth_eq_nil_iff] at hnil ⊢
    exact fun c hc => hnil c (List.mem_of_mem_filter hc)
  · rw [numberOfText, Text.ofString, Text.chars_ofChars, hnil]
    rfl

/-- Spaces of all sorts, and the control character next line among them. -/
theorem only_end_iff_trimmed_spaces :
    (tokenize "\t\uFEFF\u2028\r\n" false).map Token.kind = [.endOfSource] ∧
      numberOfText (.ofString "\t\uFEFF\u2028\r\n") = .zero ∧
      (tokenize " \u0085 " true).map Token.kind = [.endOfSource] := by
  have hnil : trimBoth isTrimmed "\t\uFEFF\u2028\r\n".toList = [] := by decide +kernel
  obtain ⟨-, -, htrimmed⟩ :=
    only_end_iff_trimmed "\t\uFEFF\u2028\r\n" false (by simp [commentStarts])
  obtain ⟨hend, hzero⟩ := htrimmed hnil
  obtain ⟨hiff, -⟩ := only_end_iff_trimmed " \u0085 " true (by simp [commentStarts])
  exact ⟨hend, hzero, hiff.2 (by decide +kernel)⟩

/-- A source that is the control character next line has no token before its end, but trimming
leaves it as it is, and it is read as no number. -/
theorem nextLine_skipped_not_trimmed :
    (tokenize "\u0085" false).map Token.kind = [.endOfSource] ∧
      trimBoth isTrimmed "\u0085".toList ≠ [] ∧
      (numberOfText (.ofString "\u0085")).isNaN = true := by
  decide +kernel

end Ecma
