import Ecma.Proofs.Spacing

/-!
# Strict code is sloppy code

Strictness only refuses: what a strict reader reads, a sloppy reader reads alike
(`Reader.Extends`). So as long as nothing is refused, a strict and a sloppy scanner of one source
stay in the same state (`Scanner.next_sloppy`) and give the same tokens. The two differ in escapes
of strings and in numbers with a leading zero; a malformed escape of a template is the same for
both.
-/

namespace Ecma

namespace Reader

variable {α β : Type}

/-- All that the first reader reads, the second one reads alike. -/
def Extends (m m' : Reader α) : Prop :=
  ∀ ⦃cs rest : List Char⦄ ⦃a : α⦄, m cs = .done a rest → m' cs = .done a rest

theorem extends_rfl (m : Reader α) : Extends m m := fun _ _ _ h => h

theorem extends_bind {m m' : Reader α} {f f' : α → Reader β} (hm : Extends m m')
    (hf : ∀ a, Extends (f a) (f' a)) : Extends (m >>= f) (m' >>= f') := by
  intro cs rest b h
  replace h : bind m f cs = .done b rest := h
  show bind m' f' cs = .done b rest
  unfold bind at h ⊢
  split at h
  · rename_i a middle hread
    rw [hm hread]
    exact hf a h
  · cases h

end Reader

open Reader

/-! ## Numbers -/

/-- No number with more digits behind a leading zero is read in strict code. -/
theorem readLegacyNumber_strict (cs rest : List Char) (kind : TokenKind) :
    readLegacyNumber true cs ≠ .done kind rest := by
  intro h
  have hfalse : Yields (fun _ : TokenKind => False) (readLegacyNumber true) := by
    refine yields_after fun separated => yields_ite (yields_refuse _) ?_
    exact yields_after fun ds => yields_refuse _
  exact hfalse cs kind rest h

theorem extends_readNumberBody (first : Char) :
    Extends (readNumberBody true first) (readNumberBody false first) := by
  intro cs rest kind h
  unfold readNumberBody at h ⊢
  by_cases hzero : first = '0'
  · rw [if_pos hzero] at h ⊢
    cases cs with
    | nil => exact h
    | cons c cs =>
      simp only at h ⊢
      cases hmark : RadixMark.ofChar? c with
      | some mark =>
        rw [hmark] at h
        exact h
      | none =>
        simp only [hmark] at h ⊢
        split at h
        · exact absurd h (readLegacyNumber_strict _ _ _)
        · rename_i hdigit
          rw [if_neg hdigit]
          exact h
  · rw [if_neg hzero] at h ⊢
    exact h

theorem extends_readNumber (first : Char) :
    Extends (readNumber true first) (readNumber false first) :=
  extends_bind (extends_readNumberBody first) fun _ => extends_rfl _

/-- Numbers of strict code are not in the old octal notation. -/
theorem readNumber_yields_modern (first : Char) :
    Yields TokenKind.IsModernNumeral (readNumber true first) := by
  have hlegacy : Yields TokenKind.IsModernNumeral (readLegacyNumber true) :=
    fun cs kind rest h => absurd h (readLegacyNumber_strict cs rest kind)
  refine yields_bind (readNumberBody_yields_of (fun _ hk => hk) hlegacy first) fun kind hk => ?_
  exact yields_after fun _ => yields_ite (yields_refuse _) (yields_pure hk)

/-! ## Strings -/

theorem extends_readOctalEscape (first : Nat) :
    Extends (readOctalEscape .strict first) (readOctalEscape .sloppy first) := by
  intro cs rest units h
  unfold readOctalEscape at h ⊢
  split at h
  · rename_i hzero
    rw [if_pos hzero]
    exact h
  · cases h

theorem extends_readEscape : Extends (readEscape .strict) (readEscape .sloppy) := by
  intro cs rest units h
  cases cs with
  | nil => cases h
  | cons c cs =>
    simp only [readEscape] at h ⊢
    split at h
    · exact h
    split at h
    · exact extends_readOctalEscape _ h
    split at h
    · cases h
    · rename_i hdecimal
      rw [if_neg hdecimal]
      exact h

theorem extends_readString (quote : Char) :
    Extends (readString .strict quote) (readString .sloppy quote) := by
  intro cs rest units h
  fun_induction readString .strict quote cs generalizing units with
  | case1 => cases h
  | case2 cs => rw [readString_quote, h]
  | case3 => cases h
  | case4 => cases h
  | case5 cs escaped rest' hescape hquote hline ih =>
    obtain ⟨more, hmore, rfl⟩ := Read.map_eq_done.1 h
    rw [readString_escape hquote (extends_readEscape hescape)]
    exact Read.map_eq_done.2 ⟨more, ih hmore, rfl⟩
  | case6 c cs hquote hline hback ih =>
    obtain ⟨more, hmore, rfl⟩ := Read.map_eq_done.1 h
    rw [readString, if_neg hquote, if_neg hline, if_neg hback]
    exact Read.map_eq_done.2 ⟨more, ih hmore, rfl⟩

/-! ## One token -/

/-- The second lexeme is the first one if that is a valid token. -/
def Lexeme.Extends (l l' : Lexeme) : Prop := l.kind.isInvalid = false → l' = l

namespace Lexeme

theorem extends_rfl (l : Lexeme) : Extends l l := fun _ => rfl

theorem extends_ite {c : Prop} [Decidable c] {l l' k k' : Lexeme} (hl : Extends l l')
    (hk : Extends k k') : Extends (if c then l else k) (if c then l' else k') := by
  split
  · exact hl
  · exact hk

end Lexeme

theorem extends_lexRead {α : Type} {m m' : Reader α} (hm : Extends m m') (n : Nesting)
    (f : α → TokenKind) (cs : List Char) :
    Lexeme.Extends (lexRead n f (m cs)) (lexRead n f (m' cs)) := by
  intro h
  obtain ⟨a, rest, hread⟩ := Read.exists_done h
  rw [hread, hm hread]

/-- A valid token of strict code is read alike in sloppy code. -/
theorem extends_lex (goal : Goal) (n : Nesting) (cs : List Char) :
    Lexeme.Extends (lex true goal n cs) (lex false goal n cs) := by
  cases cs with
  | nil => exact Lexeme.extends_rfl _
  | cons c cs =>
    unfold lex
    refine Lexeme.extends_ite (Lexeme.extends_rfl _) ?_
    refine Lexeme.extends_ite (extends_lexRead (extends_readString c) n _ cs) ?_
    refine Lexeme.extends_ite (Lexeme.extends_rfl _) ?_
    refine Lexeme.extends_ite (Lexeme.extends_rfl _) ?_
    refine Lexeme.extends_ite (Lexeme.extends_rfl _) ?_
    exact Lexeme.extends_ite (extends_lexRead (extends_readNumber c) n id cs) (Lexeme.extends_rfl _)

/-- A kind of token other than an old octal number. -/
def TokenKind.IsNotLegacy (k : TokenKind) : Prop := ∀ value, k ≠ .legacyOctal value

theorem TokenKind.IsWord.isNotLegacy {k : TokenKind} (h : k.IsWord) : k.IsNotLegacy := by
  rintro value rfl
  exact h

theorem TokenKind.IsModernNumeral.isNotLegacy {k : TokenKind} (h : k.IsModernNumeral) :
    k.IsNotLegacy := by
  rintro value rfl
  exact h

/-- No token of strict code is an old octal number. -/
theorem kind_lex_isNotLegacy (goal : Goal) (n : Nesting) (cs : List Char) :
    (lex true goal n cs).kind.IsNotLegacy := by
  have hrefused : ∀ complaint, (TokenKind.invalid complaint).IsNotLegacy := fun _ _ => nofun
  cases cs with
  | nil => exact fun _ => nofun
  | cons c cs =>
    refine kind_lex_of hrefused (fun _ => TokenKind.IsWord.isNotLegacy) (fun _ _ => nofun)
      (fun _ _ _ _ => nofun) (fun _ _ _ => nofun) (fun k rest hread => ?_) (fun _ _ _ _ => nofun)
    exact (readNumber_yields_modern c cs k rest hread).isNotLegacy

/-! ## Runs -/

namespace Scanner

/-- The scanner for sloppy code in the same place. -/
def sloppy (s : Scanner) : Scanner := { s with strict := false }

theorem strict_next (goal : Goal) (s : Scanner) : (s.next goal).2.strict = s.strict := by
  rw [next_eq]
  split
  · rfl
  · rfl

/-- A valid token of strict code leaves the two scanners in the same place. -/
theorem next_sloppy {goal : Goal} {s : Scanner} (hs : s.strict = true)
    (hvalid : (s.next goal).1.kind.isInvalid = false) :
    s.sloppy.next goal = ((s.next goal).1, (s.next goal).2.sloppy) := by
  obtain ⟨newline, rest, hgap⟩ := exists_gap hvalid
  have hsloppy : s.sloppy.next goal = s.sloppy.finishGap goal newline rest := next_of_gap hgap
  rw [next_of_gap hgap] at hvalid ⊢
  rw [hsloppy]
  have hlex : lex s.strict goal s.nesting rest = lex s.sloppy.strict goal s.nesting rest := by
    replace hvalid : (lex s.strict goal s.nesting rest).kind.isInvalid = false := hvalid
    rw [hs] at hvalid ⊢
    exact (extends_lex goal s.nesting rest hvalid).symm
  simp only [finishGap, hlex]
  rfl

theorem kind_next_isNotLegacy {goal : Goal} {s : Scanner} (hs : s.strict = true) :
    (s.next goal).1.kind.IsNotLegacy := by
  rw [next_eq]
  split
  · exact fun _ => nofun
  · rename_i newline rest hskip
    have hkind := kind_lex_isNotLegacy goal s.nesting rest
    rw [← hs] at hkind
    exact hkind

/-- As long as strict code has only valid tokens, sloppy code has the same ones. -/
theorem tokensAfter_sloppy {previous : Option TokenKind} {s : Scanner} (hs : s.strict = true)
    (hvalid : ∀ t ∈ s.tokensAfter previous, t.kind.isInvalid = false) :
    s.sloppy.tokensAfter previous = s.tokensAfter previous := by
  fun_induction tokensAfter previous s with
  | case1 previous s hend =>
    have hnext : s.sloppy.nextAfter previous = _ :=
      next_sloppy hs (hvalid _ List.mem_cons_self)
    have hend' : (s.sloppy.nextAfter previous).1.kind = .endOfSource := by
      rw [hnext]
      exact hend
    rw [tokensAfter, dif_pos hend', hnext]
    rfl
  | case2 previous s hne t =>
    rename_i ih
    have hnext : s.sloppy.nextAfter previous = _ :=
      next_sloppy hs (hvalid t List.mem_cons_self)
    have hne' : (s.sloppy.nextAfter previous).1.kind ≠ .endOfSource := by
      rw [hnext]
      exact hne
    have hrest := ih ((strict_next _ s).trans hs) fun u hu =>
      hvalid u (List.mem_cons_of_mem t hu)
    rw [tokensAfter, dif_neg hne', hnext]
    exact congrArg (t :: ·) hrest

theorem kind_tokensAfter_isNotLegacy (previous : Option TokenKind) {s : Scanner}
    (hs : s.strict = true) : ∀ t ∈ s.tokensAfter previous, t.kind.IsNotLegacy := by
  intro t ht
  obtain ⟨front, back, hcut⟩ := List.append_of_mem ht
  obtain ⟨previous', s', hs', htokens⟩ := tokensAfter_cut (fun _ s => s.strict = true)
    (fun _ s goal hs _ => (strict_next goal s).trans hs) previous hs hcut
  obtain ⟨rfl, -⟩ := tokensAfter_eq_cons htokens
  exact kind_next_isNotLegacy hs'

end Scanner

/-- If strict code has only valid tokens, then they are the tokens of the same text as sloppy code,
and none of them is a number in the old octal notation. -/
theorem tokenize_strict_restricts (source : String)
    (h : ∀ t ∈ tokenize source true, t.kind.isInvalid = false) :
    tokenize source false = tokenize source true ∧
      ∀ t ∈ tokenize source false, ∀ value, t.kind ≠ .legacyOctal value := by
  have hs : (Scanner.ofString source true).strict = true := rfl
  have hsame : tokenize source false = tokenize source true := Scanner.tokensAfter_sloppy hs h
  rw [hsame]
  exact ⟨rfl, Scanner.kind_tokensAfter_isNotLegacy none hs⟩

/-- Escapes and numbers close to the ones that strict code refuses, and a template with an escape
that is malformed either way. -/
theorem tokenize_strict_restricts_escapes :
    let source := "'\\0\\x09' + 0 + 0x10 / 0.8e1 + \\u0061 + \x60\\08\x60\n--> 010"
    (∀ t ∈ tokenize source true, t.kind.isInvalid = false) ∧
      tokenize source false = tokenize source true ∧
      ∀ t ∈ tokenize source false, ∀ value, t.kind ≠ .legacyOctal value := by
  have h : ∀ t ∈ tokenize "'\\0\\x09' + 0 + 0x10 / 0.8e1 + \\u0061 + \x60\\08\x60\n--> 010" true,
      t.kind.isInvalid = false := by decide +kernel
  exact ⟨h, tokenize_strict_restricts _ h⟩

end Ecma
