import Ecma.Proofs.LongestNumber
import Ecma.Proofs.NumberText

/-!
# Number literals as texts

A number can be written in a source and in a text, and the two are read by different means. A source
that is one number literal is read as the same number when its separators are dropped and it is
taken for a text: form by form, the grammar of number literals without separators is contained in
the grammar of texts that are numbers (`Numeral.numericLiteral`).
-/

namespace Ecma

/-- What is read as a number is a text of the grammar. -/
theorem numeral_of_readNumber {strict : Bool} {c : Char} {cs rest : List Char} {kind : TokenKind}
    (hstart : isDecimalDigit c = true ∨ c = '.' ∧ cs.head?.any isDecimalDigit = true)
    (h : readNumber strict c cs = .done kind rest) :
    ∃ text, c :: cs = text ++ rest ∧ Numeral strict text kind := by
  -- the reader stops behind the longest numeral or refuses it, so that numeral is what it read
  obtain ⟨text, htext, hbegins⟩ := exists_numeral hstart strict
  obtain ⟨text, kind', hlongest⟩ := exists_longestNumeral htext hbegins
  obtain ⟨after, hafter⟩ := hlongest.begins
  rw [← hafter] at hlongest
  obtain ⟨first, rest', rfl, hon | hsettles⟩ := hlongest.numeral.settles after
  · exact absurd hon hlongest.not_goesOn
  have hcs : c :: cs = first :: (rest' ++ after) := hafter.symm
  obtain ⟨rfl, rfl⟩ := List.cons.inj hcs
  have hread := readNumber_of_settles hsettles
  rw [h] at hread
  split at hread
  · obtain ⟨complaint, left, hrefused⟩ := hread
    cases hrefused
  · obtain ⟨rfl, rfl⟩ := Read.done.inj hread
    exact ⟨_, rfl, hlongest.numeral⟩

/-- Only the number reader gives a number. -/
theorem readNumber_of_lex {strict : Bool} {goal : Goal} {n : Nesting} {cs : List Char} {v : Double}
    (h : (lex strict goal n cs).kind = .number v) :
    ∃ c rest, cs = c :: rest ∧
      (isDecimalDigit c = true ∨ c = '.' ∧ rest.head?.any isDecimalDigit = true) ∧
      readNumber strict c rest = .done (.number v) (lex strict goal n cs).rest := by
  have hother : ∀ {α : Type} {f : α → TokenKind} {r : Read α},
      (∀ a rest, r = .done a rest → f a ≠ .number v) → r.kind f ≠ .number v :=
    Read.kind_of (P := (· ≠ .number v)) fun _ => nofun
  cases cs with
  | nil => cases h
  | cons c rest =>
    refine ⟨c, rest, rfl, ?_⟩
    unfold lex at h ⊢
    dsimp only at h ⊢
    split at h
    · refine absurd h (hother fun name _ _ hname => ?_)
      have hword := kindOfName_isWord name
      rw [hname] at hword
      exact hword
    rename_i hname
    split at h
    · exact absurd h (hother fun _ _ _ => nofun)
    rename_i hquote
    split at h
    · exact absurd h (hother fun _ _ _ => nofun)
    rename_i hmark
    split at h
    · exact absurd h (hother fun _ _ _ => nofun)
    rename_i hbrace
    split at h
    · exact absurd h (hother fun _ _ _ => nofun)
    rename_i hslash
    split at h
    · rename_i hdigit
      rw [if_neg hname, if_neg hquote, if_neg hmark, if_neg hbrace, if_neg hslash, if_pos hdigit]
      refine ⟨by simpa using hdigit, ?_⟩
      cases hread : readNumber strict c rest with
      | refused complaint left => rw [hread] at h; cases h
      | done kind left =>
        rw [hread] at h
        obtain rfl : kind = .number v := h
        rfl
    · unfold lexPunctuator at h
      split at h
      · cases h
      · cases h

/-- A number literal is, without its separators, a literal of texts with the same number. -/
theorem Numeral.numericLiteral {strict : Bool} {text : List Char} {v : Double}
    (h : Numeral strict text (.number v)) : NumericLiteral (withoutSeparators text) v := by
  have hdecimal : ∀ (whole : List Char) {fraction exponent : List Char} {ds fs : List Nat}
      {x : Int}, HaveValues 10 (withoutSeparators whole) ds → Fraction fraction fs →
      Exponent exponent x → ds ++ fs ≠ [] →
        NumericLiteral (withoutSeparators (whole ++ (fraction ++ exponent)))
          (decimalOf ds fs x).toDouble := by
    intro whole fraction exponent ds fs x hwhole hfraction hexponent hne
    have hread := ofChars?_literal hwhole hfraction hexponent hne
    exact @NumericLiteral.decimal [] _ false _ (by decide) (Decimal.ofChars?_eq_some_iff.1 hread)
  cases h with
  | decimal hwhole hfraction hexponent =>
    cases hwhole with
    | zero => exact hdecimal ['0'] (.cons rfl .nil) hfraction hexponent (List.cons_ne_nil _ _)
    | nonzero _ hds =>
      have hne := List.append_ne_nil_of_left_ne_nil hds.ne_nil
      exact hdecimal _ hds.haveValues hfraction hexponent (hne _)
  | point hds hexponent => exact hdecimal [] .nil (.point (.digits hds)) hexponent hds.ne_nil
  | @radix letter mark text ds hletter hds =>
    have hne : letter ≠ '_' := by
      rintro rfl
      cases hletter
    rw [withoutSeparators_cons (by decide), withoutSeparators_cons hne]
    exact .radix (mem_radixLetters hletter) hds.haveValues hds.ne_nil
  | @legacyDecimal text fraction exponent ds fs x _ hds _ hfraction hexponent _ =>
    have hwhole : HaveValues 10 (withoutSeparators ('0' :: text)) (0 :: ds) := by
      rw [withoutSeparators_cons (by decide)]
      exact .cons rfl hds.haveValues
    exact hdecimal ('0' :: text) hwhole hfraction hexponent (List.cons_ne_nil _ _)

theorem NumericLiteral.numberOfText_eq {cs : List Char} {x : Double} (h : NumericLiteral cs x) :
    numberOfText (.ofChars cs) = x := by
  rw [numberOfText, Text.chars_ofChars,
    trimBoth_eq_self fun c hc => isTrimmed_of_isPrinted (h.isPrinted c hc), h.numberOfChars_eq]

/-- A number that takes all of the source is read from its first character on. -/
theorem Scanner.readNumber_of_next {s : Scanner} {goal : Goal} {v : Double}
    (hkind : (s.next goal).1.kind = .number v)
    (hraw : (s.next goal).1.raw = String.ofList s.rest) :
    ∃ c cs, s.rest = c :: cs ∧
      (isDecimalDigit c = true ∨ c = '.' ∧ cs.head?.any isDecimalDigit = true) ∧
      readNumber s.strict c cs = .done (.number v) [] := by
  have hsuffix := rest_skipTrivia_suffix s.lineStart (s.position.offset == 0) false s.rest
  rw [next_eq] at hkind hraw
  split at hkind
  · cases hkind
  · rename_i newline rest heq
    rw [heq] at hsuffix hraw
    obtain ⟨c, cs, rfl, hstart, hread⟩ := readNumber_of_lex hkind
    replace hraw : textBefore (c :: cs) (lex s.strict goal s.nesting (c :: cs)).rest = s.rest :=
      String.ofList_injective hraw
    have hall := textBefore_append ((rest_lex_suffix s.strict goal s.nesting c cs).trans
      (List.suffix_cons c cs))
    rw [hraw] at hall
    -- the token is as long as the source, so that nothing is left before or behind it
    have hlength := hsuffix.length_le
    rw [Trivia.rest, ← hall, List.length_append] at hlength
    have hnil : (lex s.strict goal s.nesting (c :: cs)).rest = [] :=
      List.length_eq_zero_iff.1 (by omega)
    rw [hnil, List.append_nil] at hall
    exact ⟨c, cs, hall, hstart, hnil ▸ hread⟩

/-- A source that is one number literal is, without its separators, read as the same number when it
is taken for a text. -/
theorem number_literal_read_as_text {source : String} {strict : Bool} {v : Double}
    (h : (tokenize source strict).map (fun t => (t.kind, t.raw)) =
      [(.number v, source), (.endOfSource, "")]) :
    numberOfText (.ofChars (source.toList.filter (· != '_'))) = v := by
  obtain ⟨t, tokens, htokens, htoken, -⟩ := List.map_eq_cons_iff.1 h
  obtain ⟨hkind, hraw⟩ := Prod.mk.inj htoken
  obtain ⟨rfl, -⟩ := Scanner.tokensAfter_eq_cons htokens
  have hrest : (Scanner.ofString source strict).rest = source.toList := rfl
  obtain ⟨c, cs, hcs, hstart, hread⟩ :=
    Scanner.readNumber_of_next hkind (by rw [hrest, String.ofList_toList]; exact hraw)
  obtain ⟨text, htext, hnumeral⟩ := numeral_of_readNumber hstart hread
  rw [← hrest, hcs, htext, List.append_nil]
  exact hnumeral.numericLiteral.numberOfText_eq

/-- A decimal literal with a separator, a fraction and an exponent. -/
theorem number_literal_read_as_text_exponent :
    (tokenize "1_000.5E-1" true).map (fun t => (t.kind, t.raw)) =
        [(.number ⟨0x4059033333333333⟩, "1_000.5E-1"), (.endOfSource, "")] ∧
      numberOfText (.ofChars "1000.5E-1".toList) = ⟨0x4059033333333333⟩ := by
  have htokens : (tokenize "1_000.5E-1" true).map (fun t => (t.kind, t.raw)) =
      [(.number ⟨0x4059033333333333⟩, "1_000.5E-1"), (.endOfSource, "")] := by decide +kernel
  have hclean : "1_000.5E-1".toList.filter (· != '_') = "1000.5E-1".toList := by decide +kernel
  exact ⟨htokens, hclean ▸ number_literal_read_as_text htokens⟩

end Ecma
