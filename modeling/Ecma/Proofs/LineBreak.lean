import Ecma.Proofs.LineStart

/-!
# Line breaks between tokens

A token says whether a line terminator stands between it and the token before it, and so it is
whatever stands there: blanks, line ends, comments to the end of the line, which leave their line
end behind, and block comments with line ends inside (`newlineBefore_exact`). Skipping notes what it
crosses piece by piece, and comes to whether the whole gap holds a line terminator
(`newline_of_skipTrivia`).
-/

namespace Ecma

/-! ## One gap -/

/-- Skipping that gets no further has crossed nothing. -/
theorem newline_of_skipTrivia_self {lineStart atStart newline newline' : Bool} {cs : List Char}
    (h : skipTrivia lineStart atStart newline cs = .gap newline' cs) : newline' = newline := by
  -- in all cases but the first two, a character is left behind
  have hshort : ∀ (atStart crossed : Bool) (c : Char) (rest cs : List Char), rest <:+ cs →
      skipTrivia lineStart atStart crossed rest ≠ .gap newline' (c :: cs) := by
    intro atStart crossed c rest cs hrest heq
    have hsuffix := rest_skipTrivia_suffix lineStart atStart crossed rest
    rw [heq] at hsuffix
    have hlength := (hsuffix.trans hrest).length_le
    simp [Trivia.rest] at hlength
  revert h
  fun_cases skipTrivia lineStart atStart newline cs with
  | case1 =>
    intro h
    cases h
    rfl
  | case2 =>
    intro h
    cases h
    rfl
  | case3 c cs => exact fun h => absurd h (hshort _ _ c cs cs List.suffix_rfl)
  | case4 c cs => exact fun h => absurd h (hshort _ _ c cs cs List.suffix_rfl)
  | case5 c cs => exact fun h => absurd h (hshort _ _ c _ cs (dropLine_suffix cs))
  | case6 =>
    intro h
    cases h
  | case7 c cs _ _ rest hend =>
    have hrest := (blockEnd?_suffix hend).trans (List.drop_suffix 1 cs)
    exact fun h => absurd h (hshort _ _ c rest cs hrest)

/-- Skipping a gap notes whether the gap holds a line terminator. -/
theorem newline_of_skipTrivia {lineStart atStart newline : Bool} {gap rest : List Char}
    (hgap : Gap rest atStart gap)
    (h : skipTrivia lineStart atStart false (gap ++ rest) = .gap newline rest) :
    newline = gap.any isLineTerminator := by
  have hfar : (skipTrivia lineStart atStart false (gap ++ rest)).rest <:+ rest := by
    rw [h]
    exact List.suffix_rfl
  rw [skipTrivia_gap hgap lineStart false hfar, Bool.false_or] at h
  exact newline_of_skipTrivia_self h

namespace Scanner

/-! ## One token -/

/-- Every call reads a token behind a gap, and says whether the gap holds a line terminator, unless
the token is a comment without an end. -/
theorem next_reads_newline (goal : Goal) (s : Scanner) :
    ∃ gap raw, s.Reads gap raw (s.next goal).1 (s.next goal).2 ∧
      ((s.next goal).1.kind ≠ .invalid .unterminatedComment →
        (s.next goal).1.newlineBefore = gap.any isLineTerminator) := by
  obtain ⟨gap, hrest, hgap⟩ := gap_skipTrivia s.lineStart (s.position.offset == 0) false s.rest
  rw [next_eq]
  split
  · rename_i comment hskip
    rw [hskip] at hrest hgap
    exact ⟨gap, comment, finishUnclosed_reads hrest hgap (unclosed_ne_nil hskip),
      fun hkind => absurd rfl hkind⟩
  · rename_i newline rest hskip
    rw [hskip] at hrest hgap
    obtain ⟨raw, hreads⟩ := finishGap_reads goal newline hrest hgap
    refine ⟨gap, raw, hreads, fun _ => ?_⟩
    rw [hrest] at hskip
    exact newline_of_skipTrivia hgap hskip

/-! ## Runs -/

/-- What holds before the first token and is kept by every token holds before each token of a run,
of the tokens before it. -/
theorem run_cut (Inv : List Token → Scanner → Prop)
    (hstep : ∀ past s goal, Inv past s → Inv (past ++ [(s.next goal).1]) (s.next goal).2)
    {goals : List Goal} {s : Scanner} {front back : List Token} {t : Token} (hs : Inv [] s)
    (h : s.run goals = front ++ t :: back) :
    ∃ goal s', Inv front s' ∧ (s'.next goal).1 = t := by
  induction goals generalizing Inv s front with
  | nil =>
    rw [run] at h
    simp at h
  | cons goal goals ih =>
    rw [run] at h
    cases front with
    | nil =>
      obtain ⟨ht, -⟩ := List.cons.inj h
      exact ⟨goal, s, hs, ht⟩
    | cons u front =>
      obtain ⟨rfl, hrest⟩ := List.cons.inj h
      -- from here on, the first token is one of the past
      exact ih (fun past s => Inv (_ :: past) s) (fun past => hstep (_ :: past))
        (hstep [] s goal hs) hrest

/-- A scanner is inside a source, right behind some tokens. -/
def Behind (source : String) (tokens : List Token) (s : Scanner) : Prop :=
  s.At source ∧ s.position.offset = stopOf tokens

theorem Behind.next {source : String} {tokens : List Token} {s : Scanner}
    (h : s.Behind source tokens) (goal : Goal) :
    (s.next goal).2.Behind source (tokens ++ [(s.next goal).1]) := by
  obtain ⟨gap, raw, hreads⟩ := next_reads goal s
  obtain ⟨-, -, hat, hstop⟩ := hreads.tile h.1
  refine ⟨hat, ?_⟩
  rw [hstop]
  simp [stopOf]

end Scanner

/-- Whatever the goals, the source is cut at each token into the text up to the end of the token
before, a gap, the token and the rest; and unless the token is a comment without an end, it says
that a line terminator stands before it exactly if the gap holds one. -/
theorem newlineBefore_exact (source : String) (strict : Bool) {goals : List Goal}
    {front back : List Token} {t : Token}
    (h : (Scanner.ofString source strict).run goals = front ++ t :: back)
    (hkind : t.kind ≠ .invalid .unterminatedComment) :
    ∃ before gap after : String, source = before ++ gap ++ t.raw ++ after ∧
      before.utf8ByteSize = stopOf front ∧ (before ++ gap).utf8ByteSize = t.position.offset ∧
      (t.newlineBefore = true ↔ ∃ c ∈ gap.toList, c ∈ lineTerminators) := by
  obtain ⟨goal, s, hbehind, rfl⟩ := Scanner.run_cut (Scanner.Behind source)
    (fun _ _ goal hs => hs.next goal) ⟨Scanner.at_ofString source strict, rfl⟩ h
  obtain ⟨⟨before, hsource, hoffset⟩, hstop⟩ := hbehind
  obtain ⟨gap, raw, hreads, hnewline⟩ := Scanner.next_reads_newline goal s
  refine ⟨before, String.ofList gap, String.ofList (s.next goal).2.rest, ?_, ?_, ?_, ?_⟩
  · rw [hsource, hreads.raw_eq, hreads.rest_eq]
    simp only [String.ofList_append, String.append_assoc]
  · rw [← hoffset, hstop]
  · rw [hreads.offset_eq, hoffset, String.utf8ByteSize_append]
  · rw [hnewline hkind, List.any_eq_true, String.toList_ofList]
    exact exists_congr fun c => and_congr_right fun _ => mem_lineTerminators.symm

/-- A name behind two comments to the end of their lines, and a slash on the line of the name. -/
theorem newlineBefore_exact_comments :
    let source := "a /*\u2028*/ b <!--c\n-->d\r e /"
    let tokens := (Scanner.ofString source false).run [.regExp, .divide, .regExp, .divide]
    let e : Token := ⟨.identifier "e", "e", ⟨4, 1, 24⟩, true⟩
    let slash : Token := ⟨.punctuator .slash, "/", ⟨4, 3, 26⟩, false⟩
    tokens = tokens.take 2 ++ e :: tokens.drop 3 ∧ tokens = tokens.take 3 ++ [slash] ∧
      (∃ before gap after : String, source = before ++ gap ++ "e" ++ after ∧
        before.utf8ByteSize = stopOf (tokens.take 2) ∧ (before ++ gap).utf8ByteSize = 24 ∧
        ∃ c ∈ gap.toList, c ∈ lineTerminators) ∧
      ∃ before gap after : String, source = before ++ gap ++ "/" ++ after ∧
        before.utf8ByteSize = stopOf (tokens.take 3) ∧ (before ++ gap).utf8ByteSize = 26 ∧
        ¬∃ c ∈ gap.toList, c ∈ lineTerminators := by
  intro source tokens e slash
  have he : tokens = tokens.take 2 ++ e :: tokens.drop 3 := by decide +kernel
  have hslash : tokens = tokens.take 3 ++ [slash] := by decide +kernel
  refine ⟨he, hslash, ?_, ?_⟩
  · obtain ⟨before, gap, after, hsource, hsize, hoffset, hnewline⟩ :=
      newlineBefore_exact source false he (by decide)
    exact ⟨before, gap, after, hsource, hsize, hoffset, hnewline.1 rfl⟩
  · obtain ⟨before, gap, after, hsource, hsize, hoffset, hnewline⟩ :=
      newlineBefore_exact source false hslash (by decide)
    exact ⟨before, gap, after, hsource, hsize, hoffset, fun h => nomatch hnewline.2 h⟩

/-- A comment without an end says that it is on a line of its own, wherever it is. -/
example : ((Scanner.ofString "a/*" false).run [.regExp, .divide]).map Token.newlineBefore =
    [false, true] := by decide +kernel

end Ecma
