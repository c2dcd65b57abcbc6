import Ecma.Proofs.NumberGrammar
import Ecma.Proofs.Trimming

/-!
# The grammar of texts that are numbers

What may be left of a text without its outer spaces for it to be read as a number: nothing, the word
for infinity, a decimal literal with an optional sign, or digits of another radix behind a zero and
a letter. Each form carries its number: `NumericLiteral`. Decimal literals are read exactly as the
grammar has them (`Decimal.ofChars?_eq_some_iff`), and a text is read as no number exactly if it has
none of the forms (`numberOfText_isNaN_iff`).
-/

namespace Ecma

/-! ## Forms -/

/-- A decimal literal without a sign and without separators, and its number. At least one digit
stands before or behind the point. -/
inductive PlainDecimal : List Char → Decimal → Prop where
  | mk {whole fraction exponent : List Char} {ds fs : List Nat} {x : Int}
      (hwhole : HaveValues 10 whole ds) (hfraction : Fraction fraction fs)
      (hexponent : Exponent exponent x) (hne : ds ++ fs ≠ [])
      (hplain : '_' ∉ fraction ++ exponent) :
      PlainDecimal (whole ++ (fraction ++ exponent)) (decimalOf ds fs x)

/-- The signs of a number, of which none is one, and whether they make it negative. -/
def numberSigns : List (List Char × Bool) := [([], false), (['+'], false), (['-'], true)]

/-- The number, or the one with the opposite sign. -/
def Double.withSign (negative : Bool) (x : Double) : Double := if negative then x.negate else x

/-- The letters behind a zero that announce the digits of a radix. -/
def radixLetters : List (Char × Nat) :=
  [('x', 16), ('X', 16), ('o', 8), ('O', 8), ('b', 2), ('B', 2)]

/-- What a text that is a number may be without its outer spaces, if anything is left of it, and the
number. -/
inductive NumericLiteral : List Char → Double → Prop where
  | infinity {sign : List Char} {negative : Bool} (hsign : (sign, negative) ∈ numberSigns) :
      NumericLiteral (sign ++ "Infinity".toList) (Double.infinity.withSign negative)
  | decimal {sign text : List Char} {negative : Bool} {d : Decimal}
      (hsign : (sign, negative) ∈ numberSigns) (htext : PlainDecimal text d) :
      NumericLiteral (sign ++ text) (d.toDouble.withSign negative)
  | radix {letter : Char} {radix : Nat} {text : List Char} {ds : List Nat}
      (hletter : (letter, radix) ∈ radixLetters) (htext : HaveValues radix text ds)
      (hne : ds ≠ []) :
      NumericLiteral ('0' :: letter :: text) (Double.ofRadixDigits radix ds)

/-- The text is a number. -/
def Text.IsNumber (t : Text) (x : Double) : Prop :=
  t.trimmed = .empty ∧ x = .zero ∨ ∃ cs, t.trimmed = .ofChars cs ∧ NumericLiteral cs x

/-! ## Decimal literals -/

namespace HaveValues

variable {radix : Nat} {cs : List Char} {ds : List Nat}

theorem of_areDigits (h : AreDigits radix cs) :
    HaveValues radix cs (cs.filterMap (digitValue? radix)) := by
  induction cs with
  | nil => exact .nil
  | cons c cs ih =>
    obtain ⟨hc, hcs⟩ := areDigits_cons.1 h
    obtain ⟨d, hd⟩ := exists_digitValue? hc
    rw [List.filterMap_cons_some hd]
    exact .cons hd (ih hcs)

theorem digits (h : HaveValues radix cs ds) (hne : ds ≠ []) : Digits radix cs ds := by
  induction h with
  | nil => exact absurd rfl hne
  | @cons c d cs ds hd hds ih =>
    cases hds with
    | nil => exact .single hd
    | cons _ _ => exact .cons hd (ih (List.cons_ne_nil _ _))

theorem ne_nil (h : HaveValues radix cs ds) (hne : cs ≠ []) : ds ≠ [] := by
  rintro rfl
  cases h
  exact hne rfl

theorem separator_notMem (h : HaveValues radix cs ds) : '_' ∉ cs := by
  intro hmem
  have hdigit := h.areDigits '_' hmem
  rw [isDigitOf_separator] at hdigit
  cases hdigit

end HaveValues

theorem splitAtFirst_cases (p : Char → Bool) (cs : List Char) :
    ((∀ c ∈ cs, p c = false) ∧ splitAtFirst p cs = (cs, none)) ∨
      ∃ front c back, cs = front ++ c :: back ∧ p c = true ∧
        splitAtFirst p cs = (front, some back) := by
  by_cases hnone : ∀ c ∈ cs, p c = false
  · exact Or.inl ⟨hnone, splitAtFirst_of_all hnone⟩
  · obtain ⟨c, hc⟩ : ∃ c, cs.find? p = some c := by
      rw [← Option.isSome_iff_exists, List.find?_isSome]
      simpa using hnone
    obtain ⟨hpc, front, back, rfl, hfront⟩ := List.find?_eq_some_iff_append.1 hc
    refine Or.inr ⟨front, c, back, rfl, hpc, splitAtFirst_append (fun d hd => ?_) hpc back⟩
    simpa using hfront d hd

namespace Decimal

theorem digitsValue?_eq_some {cs : List Char} {n : Nat} (h : digitsValue? cs = some n) :
    AreDigits 10 cs ∧ cs ≠ [] ∧ ofDigits 10 (cs.filterMap (digitValue? 10)) = n := by
  unfold digitsValue? at h
  split at h
  · rename_i hcs
    rw [Bool.and_eq_true, Bool.not_eq_true', List.all_eq_true] at hcs
    exact ⟨hcs.2, by simpa using hcs.1, Option.some.inj h⟩
  · cases h

/-- What is read behind an exponent mark is an exponent with that mark. -/
theorem exponent_of_exponentOfChars? {mark : Char} (hmark : isExponentMark mark = true)
    {cs : List Char} {x : Int} (h : exponentOfChars? cs = some x) :
    Exponent (mark :: cs) x ∧ '_' ∉ cs := by
  have hsigned : ∀ (sign : List Char) (unit : Int), (sign, unit) ∈ exponentSigns →
      ∀ {text : List Char} {n : Nat}, digitsValue? text = some n →
        Exponent (mark :: (sign ++ text)) (unit * n) ∧ '_' ∉ sign ++ text := by
    intro sign unit hsign text n hvalue
    obtain ⟨hdigits, hne, rfl⟩ := digitsValue?_eq_some hvalue
    have hvalues := HaveValues.of_areDigits hdigits
    refine ⟨.marked hmark hsign (hvalues.digits (hvalues.ne_nil hne)), ?_⟩
    rw [List.mem_append, not_or]
    exact ⟨separator_notMem_sign hsign, hvalues.separator_notMem⟩
  have hcast : ∀ {text : List Char} {m : Int}, (digitsValue? text : Option Int) = some m →
      ∃ n : Nat, digitsValue? text = some n ∧ m = n := by
    intro text m h
    cases hvalue : digitsValue? text with
    | none => rw [hvalue] at h; cases h
    | some n => rw [hvalue] at h; exact ⟨n, rfl, (Option.some.inj h).symm⟩
  unfold exponentOfChars? at h
  split at h
  all_goals
    obtain ⟨m, hm, rfl⟩ := Option.map_eq_some_iff.1 h
    obtain ⟨n, hn, rfl⟩ := hcast hm
  · simpa using hsigned ['+'] 1 (by decide) hn
  · simpa using hsigned ['-'] (-1) (by decide) hn
  · simpa using hsigned [] 1 (by decide) hn

/-- The digits around the point that were read, and the point, if there is one. -/
theorem mantissa_of_mantissaOfChars? {cs : List Char} {m : Decimal}
    (h : mantissaOfChars? cs = some m) :
    ∃ whole fraction ds fs, cs = whole ++ fraction ∧ HaveValues 10 whole ds ∧
      Fraction fraction fs ∧ ds ++ fs ≠ [] ∧ '_' ∉ fraction ∧
      m = ⟨ofDigits 10 (ds ++ fs), -(fs.length : Int)⟩ := by
  rw [mantissaOfChars?] at h
  rcases splitAtFirst_cases (· == '.') cs with ⟨-, hsplit⟩ | ⟨whole, c, back, rfl, hc, hsplit⟩
  · rw [hsplit] at h
    obtain ⟨n, hn, rfl⟩ := Option.map_eq_some_iff.1 h
    simp only [Option.getD_none, List.append_nil] at hn
    obtain ⟨hdigits, hne, rfl⟩ := digitsValue?_eq_some hn
    have hvalues := HaveValues.of_areDigits hdigits
    refine ⟨cs, [], _, [], (List.append_nil cs).symm, hvalues, .empty, ?_, List.not_mem_nil, ?_⟩
    · rw [List.append_nil]
      exact hvalues.ne_nil hne
    · rw [List.append_nil]
      rfl
  · obtain rfl : c = '.' := by simpa using hc
    rw [hsplit] at h
    obtain ⟨n, hn, rfl⟩ := Option.map_eq_some_iff.1 h
    rw [Option.getD_some] at hn
    obtain ⟨hdigits, hne, rfl⟩ := digitsValue?_eq_some hn
    obtain ⟨hwhole, hback⟩ := List.forall_mem_append.1 hdigits
    have hvalues := HaveValues.of_areDigits hwhole
    have hvalues' := HaveValues.of_areDigits hback
    have hfraction : FractionDigits back (back.filterMap (digitValue? 10)) := by
      by_cases hnil : back = []
      · subst hnil
        exact .empty
      · exact .digits (hvalues'.digits (hvalues'.ne_nil hnil))
    refine ⟨whole, '.' :: back, _, _, rfl, hvalues, .point hfraction, ?_, ?_, ?_⟩
    · exact (hvalues.append hvalues').ne_nil hne
    · rw [List.mem_cons, not_or]
      exact ⟨by decide, hvalues'.separator_notMem⟩
    · rw [List.filterMap_append, Option.getD_some, hvalues'.length_eq]

theorem plainDecimal_of_ofChars? {cs : List Char} {d : Decimal} (h : ofChars? cs = some d) :
    PlainDecimal cs d := by
  rw [ofChars?] at h
  rcases splitAtFirst_cases isExponentMark cs with
    ⟨-, hsplit⟩ | ⟨front, mark, back, rfl, hmark, hsplit⟩
  · rw [hsplit] at h
    obtain ⟨whole, fraction, ds, fs, rfl, hwhole, hfraction, hne, hplain, rfl⟩ :=
      mantissa_of_mantissaOfChars? h
    have hdecimal := PlainDecimal.mk hwhole hfraction .empty hne (by simpa using hplain)
    simpa [decimalOf] using hdecimal
  · rw [hsplit] at h
    obtain ⟨m, hm, h⟩ := Option.bind_eq_some_iff.1 h
    obtain ⟨x, hx, h⟩ := Option.bind_eq_some_iff.1 h
    obtain rfl := Option.some.inj h
    obtain ⟨whole, fraction, ds, fs, rfl, hwhole, hfraction, hne, hplain, rfl⟩ :=
      mantissa_of_mantissaOfChars? hm
    obtain ⟨hexponent, hplain'⟩ := exponent_of_exponentOfChars? hmark hx
    have hmark' : '_' ≠ mark := by
      rintro rfl
      cases hmark
    have hdecimal := PlainDecimal.mk hwhole hfraction hexponent hne (by simp [*])
    rw [← List.append_assoc, decimalOf, Int.sub_eq_add_neg, Int.add_comm] at hdecimal
    exact hdecimal

/-- Decimal literals are read exactly as the grammar has them. -/
theorem ofChars?_eq_some_iff {cs : List Char} {d : Decimal} :
    ofChars? cs = some d ↔ PlainDecimal cs d := by
  constructor
  · exact plainDecimal_of_ofChars?
  · rintro ⟨hwhole, hfraction, hexponent, hne, hplain⟩
    have hclean := withoutSeparators_of_not_mem hwhole.separator_notMem
    rw [← ofChars?_literal (hclean.symm ▸ hwhole) hfraction hexponent hne, withoutSeparators_append,
      hclean, withoutSeparators_of_not_mem hplain]

end Decimal

/-! ## The characters of a literal -/

/-- The characters that stand in decimal literals. -/
def IsDecimalChar (c : Char) : Prop := isDecimalDigit c = true ∨ c ∈ ['.', 'e', 'E', '+', '-']

theorem HaveValues.isDecimalChar {cs : List Char} {ds : List Nat} (h : HaveValues 10 cs ds) :
    ∀ c ∈ cs, IsDecimalChar c := fun c hc => Or.inl (h.areDigits c hc)

theorem Fraction.isDecimalChar {text : List Char} {fs : List Nat} (h : Fraction text fs)
    (hplain : '_' ∉ text) : ∀ c ∈ text, IsDecimalChar c := by
  have hcases := h.withoutSeparators_cases
  rw [withoutSeparators_of_not_mem hplain] at hcases
  obtain ⟨rfl, -⟩ | ⟨cs, rfl, hvalues⟩ := hcases
  · exact fun c hc => absurd hc List.not_mem_nil
  · exact List.forall_mem_cons.2 ⟨Or.inr (by decide), hvalues.isDecimalChar⟩

theorem Exponent.isDecimalChar {text : List Char} {x : Int} (h : Exponent text x)
    (hplain : '_' ∉ text) : ∀ c ∈ text, IsDecimalChar c := by
  cases h with
  | empty => exact fun c hc => absurd hc List.not_mem_nil
  | @marked mark sign text unit ds hmark hsign hds =>
    simp only [List.mem_cons, List.mem_append, not_or] at hplain
    rw [List.forall_mem_cons, List.forall_mem_append]
    refine ⟨?_, ?_, fun c hc => Or.inl (hds.areDigits hplain.2.2 c hc)⟩
    · rcases isExponentMark_iff.1 hmark with rfl | rfl
      · exact Or.inr (by decide)
      · exact Or.inr (by decide)
    · simp only [exponentSigns, List.mem_cons, Prod.mk.injEq, List.not_mem_nil, or_false] at hsign
      obtain ⟨rfl, -⟩ | ⟨rfl, -⟩ | ⟨rfl, -⟩ := hsign
      all_goals simp [IsDecimalChar]

namespace PlainDecimal

variable {cs : List Char} {d : Decimal}

theorem isDecimalChar (h : PlainDecimal cs d) : ∀ c ∈ cs, IsDecimalChar c := by
  obtain ⟨hwhole, hfraction, hexponent, -, hplain⟩ := h
  rw [List.mem_append, not_or] at hplain
  rw [List.forall_mem_append, List.forall_mem_append]
  exact ⟨hwhole.isDecimalChar, hfraction.isDecimalChar hplain.1, hexponent.isDecimalChar hplain.2⟩

/-- A decimal literal starts with a digit or a point. -/
theorem exists_cons (h : PlainDecimal cs d) :
    ∃ c rest, cs = c :: rest ∧ (isDecimalDigit c = true ∨ c = '.') := by
  obtain ⟨hwhole, hfraction, hexponent, hne, hplain⟩ := h
  cases hwhole with
  | cons hd _ => exact ⟨_, _, rfl, Or.inl (isDigitOf_of_digitValue? hd)⟩
  | nil =>
    cases hfraction with
    | empty => exact absurd rfl hne
    | point _ => exact ⟨'.', _, rfl, Or.inr rfl⟩

theorem ne_sign_cons (h : PlainDecimal cs d) (rest : List Char) :
    cs ≠ '+' :: rest ∧ cs ≠ '-' :: rest := by
  obtain ⟨c, rest', rfl, hc⟩ := h.exists_cons
  constructor
  all_goals
    intro hcs
    obtain ⟨rfl, -⟩ := List.cons.inj hcs
    exact absurd hc (by decide)

end PlainDecimal

/-! ## Reading literals -/

theorem mem_radixLetters {c : Char} {mark : RadixMark} (h : RadixMark.ofChar? c = some mark) :
    (c, mark.radix) ∈ radixLetters := by
  unfold RadixMark.ofChar? at h
  simp only [Bool.or_eq_true, beq_iff_eq] at h
  split_ifs at h with hc hc hc
  all_goals
    cases h
    rcases hc with rfl | rfl
    all_goals decide

theorem ofChar?_of_isDecimalChar {c : Char} (h : IsDecimalChar c) : RadixMark.ofChar? c = none := by
  rw [Option.eq_none_iff_forall_ne_some]
  intro mark hmark
  have hmem := mem_radixLetters hmark
  simp only [radixLetters, List.mem_cons, Prod.mk.injEq, List.not_mem_nil, or_false] at hmem
  unfold IsDecimalChar at h
  obtain ⟨rfl, -⟩ | ⟨rfl, -⟩ | ⟨rfl, -⟩ | ⟨rfl, -⟩ | ⟨rfl, -⟩ | ⟨rfl, -⟩ := hmem
  all_goals exact absurd h (by decide)

/-- Characters of decimal literals are neither a word nor digits of another radix. -/
theorem numberOfChars_eq_signedNumber {cs : List Char} (hne : cs ≠ [])
    (hchars : ∀ c ∈ cs, IsDecimalChar c) : numberOfChars cs = signedNumber cs := by
  have hletter : ∀ word : List Char, 'I' ∈ word → (cs == word) = false := by
    intro word hword
    rw [beq_eq_false_iff_ne]
    rintro rfl
    have hchar := hchars 'I' hword
    unfold IsDecimalChar at hchar
    exact absurd hchar (by decide)
  have hinfinity := hletter infinityWord (by decide)
  have hplus := hletter ('+' :: infinityWord) (by decide)
  have hminus := hletter ('-' :: infinityWord) (by decide)
  unfold numberOfChars
  rw [hinfinity, hplus, hminus, if_neg (by simpa using hne), if_neg (by decide),
    if_neg (by decide)]
  split
  · rename_i mark rest
    rw [ofChar?_of_isDecimalChar (hchars mark (by simp))]
  · rfl

theorem signedNumber_append {sign text : List Char} {negative : Bool}
    (hsign : (sign, negative) ∈ numberSigns)
    (htext : ∀ rest, text ≠ '+' :: rest ∧ text ≠ '-' :: rest) :
    signedNumber (sign ++ text) = decimalNumber negative text := by
  simp only [numberSigns, List.mem_cons, Prod.mk.injEq, List.not_mem_nil, or_false] at hsign
  obtain ⟨rfl, rfl⟩ | ⟨rfl, rfl⟩ | ⟨rfl, rfl⟩ := hsign
  · exact signedNumber.eq_3 text (fun rest => (htext rest).1) fun rest => (htext rest).2
  · rfl
  · rfl

theorem signedNumber_cases (cs : List Char) :
    ∃ sign negative text, (sign, negative) ∈ numberSigns ∧ cs = sign ++ text ∧
      signedNumber cs = decimalNumber negative text := by
  unfold signedNumber
  split
  · exact ⟨['+'], false, _, by decide, rfl, rfl⟩
  · exact ⟨['-'], true, _, by decide, rfl, rfl⟩
  · exact ⟨[], false, cs, by decide, rfl, rfl⟩

theorem isDecimalChar_sign {sign : List Char} {negative : Bool}
    (h : (sign, negative) ∈ numberSigns) : ∀ c ∈ sign, IsDecimalChar c := by
  simp only [numberSigns, List.mem_cons, Prod.mk.injEq, List.not_mem_nil, or_false] at h
  obtain ⟨rfl, -⟩ | ⟨rfl, -⟩ | ⟨rfl, -⟩ := h
  all_goals simp [IsDecimalChar]

/-- Every literal of the grammar is read as its number. -/
theorem NumericLiteral.numberOfChars_eq {cs : List Char} {x : Double} (h : NumericLiteral cs x) :
    numberOfChars cs = x := by
  cases h with
  | infinity hsign =>
    simp only [numberSigns, List.mem_cons, Prod.mk.injEq, List.not_mem_nil, or_false] at hsign
    obtain ⟨rfl, rfl⟩ | ⟨rfl, rfl⟩ | ⟨rfl, rfl⟩ := hsign
    all_goals decide
  | @decimal sign text negative d hsign htext =>
    obtain ⟨c, rest, rfl, -⟩ := htext.exists_cons
    rw [numberOfChars_eq_signedNumber (by simp), signedNumber_append hsign htext.ne_sign_cons,
      decimalNumber, Decimal.ofChars?_eq_some_iff.2 htext]
    · rfl
    · exact List.forall_mem_append.2 ⟨isDecimalChar_sign hsign, htext.isDecimalChar⟩
  | @radix letter radix text ds hletter htext hne =>
    have hread : numberOfChars ('0' :: letter :: text) = radixNumber radix text := by
      simp only [radixLetters, List.mem_cons, Prod.mk.injEq, List.not_mem_nil, or_false] at hletter
      obtain ⟨rfl, rfl⟩ | ⟨rfl, rfl⟩ | ⟨rfl, rfl⟩ | ⟨rfl, rfl⟩ | ⟨rfl, rfl⟩ | ⟨rfl, rfl⟩ := hletter
      all_goals rfl
    have hempty : text.isEmpty = false := by
      cases htext with
      | nil => exact absurd rfl hne
      | cons _ _ => rfl
    have hdigits : text.all (isDigitOf radix) = true := List.all_eq_true.2 htext.areDigits
    rw [hread, radixNumber, hempty, hdigits, htext.filterMap_eq]
    rfl

/-- What is no literal of the grammar is read as no number. -/
theorem numericLiteral_or_nan {cs : List Char} (hne : cs ≠ []) :
    (∃ x, NumericLiteral cs x) ∨ numberOfChars cs = .nan := by
  have hsigned : (∃ x, NumericLiteral cs x) ∨ signedNumber cs = .nan := by
    obtain ⟨sign, negative, text, hsign, rfl, hread⟩ := signedNumber_cases cs
    rw [hread, decimalNumber]
    cases hd : Decimal.ofChars? text with
    | some d => exact Or.inl ⟨_, .decimal hsign (Decimal.ofChars?_eq_some_iff.1 hd)⟩
    | none => exact Or.inr rfl
  unfold numberOfChars
  rw [if_neg (by simpa using hne)]
  split
  · rename_i hword
    rw [Bool.or_eq_true, beq_iff_eq, beq_iff_eq] at hword
    rcases hword with rfl | rfl
    · exact Or.inl ⟨_, @NumericLiteral.infinity [] false (by decide)⟩
    · exact Or.inl ⟨_, @NumericLiteral.infinity ['+'] false (by decide)⟩
  split
  · rename_i hword
    obtain rfl := beq_iff_eq.1 hword
    exact Or.inl ⟨_, @NumericLiteral.infinity ['-'] true (by decide)⟩
  split
  · rename_i letter text _ _
    cases hmark : RadixMark.ofChar? letter with
    | none => exact hsigned
    | some mark =>
      dsimp only
      unfold radixNumber
      split
      · rename_i hdigits
        rw [Bool.and_eq_true, Bool.not_eq_true', List.all_eq_true] at hdigits
        have hvalues := HaveValues.of_areDigits hdigits.2
        have htext : text ≠ [] := by simpa using hdigits.1
        exact Or.inl ⟨_, .radix (mem_radixLetters hmark) hvalues (hvalues.ne_nil htext)⟩
      · exact Or.inr rfl
  · exact hsigned

/-! ## Literals are numbers -/

namespace Double

theorem isNaN_withSign {x : Double} (h : x.isNaN = false) (negative : Bool) :
    (x.withSign negative).isNaN = false := by
  cases negative with
  | false => exact h
  | true => exact isNaN_ofMagnitude _ (by simpa [isNaN] using h)

theorem isNaN_pushDigit (radix : Nat) {x : Double} (h : x.isNaN = false) (digit : Nat) :
    (pushDigit radix x digit).isNaN = false := by
  unfold pushDigit
  split
  · exact isNaN_ofRatio ..
  · exact h

theorem isNaN_ofRadixDigits (radix : Nat) (ds : List Nat) :
    (ofRadixDigits radix ds).isNaN = false := by
  unfold ofRadixDigits
  -- no digit makes a number a NaN, whatever the digits before it have come to
  have hfold : ∀ x : Double, x.isNaN = false → (ds.foldl (pushDigit radix) x).isNaN = false := by
    induction ds with
    | nil => exact fun x hx => hx
    | cons d ds ih => exact fun x hx => ih _ (isNaN_pushDigit radix hx d)
  exact hfold zero (by decide)

end Double

namespace NumericLiteral

variable {cs : List Char} {x : Double}

theorem isNaN_eq (h : NumericLiteral cs x) : x.isNaN = false := by
  cases h with
  | infinity _ => exact Double.isNaN_withSign (by decide) _
  | decimal _ _ => exact Double.isNaN_withSign (Decimal.isNaN_toDouble _) _
  | radix _ _ _ => exact Double.isNaN_ofRadixDigits _ _

end NumericLiteral

/-- The printed ASCII characters, the space not among them. -/
def IsPrinted (c : Char) : Prop := 0x20 < c.toNat ∧ c.toNat < 0x7F

theorem isPrinted_of_digit {radix : Nat} {c : Char} (h : isDigitOf radix c = true) :
    IsPrinted c := by
  obtain ⟨d, hd⟩ := exists_digitValue? h
  have hvalue := (Option.ite_none_right_eq_some.1 hd).1
  unfold IsPrinted
  split at hvalue
  · omega
  split at hvalue
  · omega
  split at hvalue
  · omega
  · omega

theorem isPrinted_of_isDecimalChar {c : Char} (h : IsDecimalChar c) : IsPrinted c := by
  rcases h with hdigit | hmem
  · exact isPrinted_of_digit hdigit
  · simp only [List.mem_cons, List.not_mem_nil, or_false] at hmem
    rcases hmem with rfl | rfl | rfl | rfl | rfl
    all_goals exact ⟨by decide, by decide⟩

theorem NumericLiteral.isPrinted {cs : List Char} {x : Double} (h : NumericLiteral cs x) :
    ∀ c ∈ cs, IsPrinted c := by
  have hsigned : ∀ {sign : List Char} {negative : Bool}, (sign, negative) ∈ numberSigns →
      ∀ c ∈ sign, IsPrinted c :=
    fun hsign c hc => isPrinted_of_isDecimalChar (isDecimalChar_sign hsign c hc)
  cases h with
  | infinity hsign =>
    have hword : ∀ c ∈ "Infinity".toList, IsPrinted c := by simp [IsPrinted]
    exact List.forall_mem_append.2 ⟨hsigned hsign, hword⟩
  | decimal hsign htext =>
    refine List.forall_mem_append.2 ⟨hsigned hsign, fun c hc => ?_⟩
    exact isPrinted_of_isDecimalChar (htext.isDecimalChar c hc)
  | radix hletter htext hne =>
    have hletters : ∀ p ∈ radixLetters, 0x20 < p.1.toNat ∧ p.1.toNat < 0x7F := by decide
    refine List.forall_mem_cons.2 ⟨⟨by decide, by decide⟩, List.forall_mem_cons.2 ⟨?_, ?_⟩⟩
    · exact hletters _ hletter
    · exact fun c hc => isPrinted_of_digit (htext.areDigits c hc)

theorem isTrimmed_of_isPrinted {c : Char} (h : IsPrinted c) : isTrimmed c = false := by
  rw [← Bool.not_eq_true, isTrimmed_iff]
  obtain ⟨hlow, hhigh⟩ := h
  simp only [spaceCodes, List.mem_cons, List.not_mem_nil, or_false]
  omega

/-! ## Texts -/

namespace Text

theorem numberOfText_eq (t : Text) : numberOfText t = numberOfChars t.trimmed.chars := by
  rw [chars_trimmed]
  rfl

theorem not_isPrinted_replacement : ¬IsPrinted replacementCharacter := by
  unfold IsPrinted
  decide

theorem isWellFormed_of_isPrinted {t : Text} (h : ∀ c ∈ t.chars, IsPrinted c) :
    t.isWellFormed = true := by
  rw [← Bool.not_eq_false]
  exact fun hill => not_isPrinted_replacement (h _ (replacement_mem_chars hill))

theorem IsNumber.numberOfText_eq {t : Text} {x : Double} (h : t.IsNumber x) :
    numberOfText t = x := by
  rw [Text.numberOfText_eq]
  rcases h with ⟨hempty, rfl⟩ | ⟨cs, hcs, hliteral⟩
  · rw [hempty]
    rfl
  · rw [hcs, chars_ofChars, hliteral.numberOfChars_eq]

theorem IsNumber.isNaN_eq {t : Text} {x : Double} (h : t.IsNumber x) : x.isNaN = false := by
  rcases h with ⟨-, rfl⟩ | ⟨cs, -, hliteral⟩
  · decide
  · exact hliteral.isNaN_eq

/-- What has none of the forms is read as no number. -/
theorem isNumber_or_nan (t : Text) : (∃ x, t.IsNumber x) ∨ numberOfText t = .nan := by
  rw [numberOfText_eq]
  by_cases hempty : t.trimmed.chars = []
  · exact Or.inl ⟨.zero, Or.inl ⟨eq_empty_of_chars hempty, rfl⟩⟩
  · refine (numericLiteral_or_nan hempty).imp_left ?_
    rintro ⟨x, hliteral⟩
    have hwell := isWellFormed_of_isPrinted hliteral.isPrinted
    exact ⟨x, Or.inr ⟨t.trimmed.chars, (ofChars_chars hwell).symm, hliteral⟩⟩

end Text

theorem Text.IsNumber.isWellFormed {t : Text} {x : Double} (h : t.IsNumber x) :
    t.isWellFormed = true := by
  rw [← Bool.not_eq_false]
  intro hill
  have hmem : replacementCharacter ∈ t.trimmed.chars := by
    rw [chars_trimmed]
    exact mem_trimBoth (replacement_mem_chars hill) (by decide)
  rcases h with ⟨hempty, -⟩ | ⟨cs, hcs, hliteral⟩
  · rw [hempty] at hmem
    cases hmem
  · rw [hcs, chars_ofChars] at hmem
    exact not_isPrinted_replacement (hliteral.isPrinted _ hmem)

/-- A text is read as no number exactly if, without its outer spaces, it is neither empty nor a
literal of the grammar; otherwise it is read as the number that the grammar has. A text with a lone
surrogate is read as no number. -/
theorem numberOfText_isNaN_iff (t : Text) :
    ((numberOfText t).isNaN = true ↔ ∀ x, ¬t.IsNumber x) ∧
      (∀ x, t.IsNumber x → numberOfText t = x) ∧
      (t.isWellFormed = false → (numberOfText t).isNaN = true) := by
  have hiff : (numberOfText t).isNaN = true ↔ ∀ x, ¬t.IsNumber x := by
    constructor
    · intro hnan x hx
      rw [hx.numberOfText_eq, hx.isNaN_eq] at hnan
      cases hnan
    · intro hnone
      obtain ⟨x, hx⟩ | hnan := t.isNumber_or_nan
      · exact absurd hx (hnone x)
      · rw [hnan]
        decide
  refine ⟨hiff, fun x hx => hx.numberOfText_eq, fun hill => hiff.2 fun x hx => ?_⟩
  rw [hx.isWellFormed] at hill
  cases hill

/-- A hexadecimal literal between a byte order mark and a line separator, and a digit before a lone
surrogate. -/
theorem numberOfText_isNaN_iff_spaces :
    numberOfText (.ofString "\uFEFF0X1f\u2028") = .ofNat 31 ∧
      (numberOfText ⟨[0x31, 0xD800]⟩).isNaN = true := by
  obtain ⟨-, hvalue, -⟩ := numberOfText_isNaN_iff (.ofString "\uFEFF0X1f\u2028")
  obtain ⟨-, -, hlone⟩ := numberOfText_isNaN_iff ⟨[0x31, 0xD800]⟩
  have hliteral : NumericLiteral "0X1f".toList (Double.ofRadixDigits 16 [1, 15]) :=
    .radix (by decide) (.cons rfl (.cons rfl .nil)) (by decide)
  refine ⟨?_, hlone (by decide)⟩
  rw [hvalue _ (Or.inr ⟨_, by decide +kernel, hliteral⟩)]
  decide +kernel

end Ecma
