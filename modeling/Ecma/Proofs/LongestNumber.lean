import Ecma.Proofs.Elements
import Ecma.Proofs.NumberReading
import Ecma.Proofs.Strictness

/-!
# The longest number

Where a number starts, the longest text of the grammar is the token, unless a digit, a letter or a
backslash is glued to it (`number_token_longest`). The old notations are settled here: their
exponents are read with separators, which they may not have.
-/

namespace Ecma

open Reader

/-! ## Old notations -/

theorem digitValue?_ten_of_eight {c : Char} {d : Nat} (h : digitValue? 8 c = some d) :
    digitValue? 10 c = some d := by
  simp only [digitValue?, Option.ite_none_right_eq_some, Option.some.injEq] at h ⊢
  grind

theorem Digits.ten_of_eight {text : List Char} {ds : List Nat} (h : Digits 8 text ds) :
    Digits 10 text ds := by
  induction h with
  | single hd => exact .single (digitValue?_ten_of_eight hd)
  | cons hd _ ih => exact .cons (digitValue?_ten_of_eight hd) ih
  | separated hd _ ih => exact .separated (digitValue?_ten_of_eight hd) ih

theorem readLegacyNumber_separator (strict : Bool) (cs : List Char) :
    readLegacyNumber strict ('_' :: cs) = .refused .separatorAfterZero cs :=
  bind_of_done (skipIf_cons '_' cs)

theorem Reader.takeWhile_append {p : Char → Bool} {text rest : List Char}
    (htext : ∀ c ∈ text, p c = true) (hrest : rest.head?.any p = false) :
    Reader.takeWhile p (text ++ rest) = .done text rest := by
  have htake : rest.takeWhile p = [] := by
    cases rest with
    | nil => rfl
    | cons c rest => exact List.takeWhile_cons_of_neg (by simpa using hrest)
  have hdrop : rest.dropWhile p = rest := by
    cases rest with
    | nil => rfl
    | cons c rest => exact List.dropWhile_cons_of_neg (by simpa using hrest)
  rw [Reader.takeWhile, List.takeWhile_append_of_pos htext, List.dropWhile_append_of_pos htext,
    htake, hdrop, List.append_nil]

theorem separator_notMem_append_digit {text : List Char} (h : '_' ∉ text) {c : Char}
    (hc : isDecimalDigit c = true) : '_' ∉ text ++ [c] := by
  rw [List.mem_append, List.mem_singleton]
  rintro (hmem | rfl)
  · exact h hmem
  · exact absurd hc (by decide)

theorem separator_mem_of_readDigits {radix : Nat} {afterDigit : Bool} {cs digits rest : List Char}
    (h : readDigits radix afterDigit ('_' :: cs) = .done digits rest) : '_' ∈ digits := by
  rw [readDigits, if_neg (by simp [isDigitOf_separator]), if_pos rfl] at h
  split at h
  · obtain ⟨digits', -, rfl⟩ := Read.map_eq_done.1 h
    exact List.mem_cons_self
  · cases h

/-- More digits behind a leading zero are refused in strict code, and before the mark of a big
integer. -/
theorem readLegacyNumber_digits {strict : Bool} {text rest : List Char} (hds : AreDigits 10 text)
    (hne : text ≠ []) (hrest : rest.head?.any isDecimalDigit = false) :
    readLegacyNumber strict (text ++ rest) =
      if strict then .refused .legacyOctal rest
      else if rest.head?.any (· == 'n') then .refused .bigInt rest
      else finishLegacyNumber text rest := by
  have hskip : skipIf '_' (text ++ rest) = .done false (text ++ rest) := by
    refine skipIf_of_ne fun hhead => ?_
    obtain ⟨c, text, rfl⟩ := List.exists_cons_of_ne_nil hne
    exact hds.ne List.mem_cons_self (by decide) (Option.some.inj hhead)
  rw [readLegacyNumber, bind_of_done hskip]
  refine (bind_of_done (takeWhile_append hds hrest)).trans ?_
  cases strict with
  | true => rfl
  | false =>
    show (if (rest.head?.any (· == 'n')) = true then _ else _ : Reader TokenKind) rest = _
    split
    · rfl
    · rfl

section

variable {text fraction exponent after : List Char} {ds fs : List Nat} {x : Int}

/-- What may stand behind the digits of an old decimal literal. -/
inductive LegacyTail : List Char → Prop where
  | intro {fraction exponent : List Char} {fs : List Nat} {x : Int}
      (hfraction : Fraction fraction fs) (hexponent : Exponent exponent x)
      (hplain : '_' ∉ fraction ++ exponent) : LegacyTail (fraction ++ exponent)

theorem LegacyTail.ofFraction (h : Fraction fraction fs) (hplain : '_' ∉ fraction) :
    LegacyTail fraction := by
  have hnil : fraction ++ [] = fraction := List.append_nil fraction
  have htail : LegacyTail (fraction ++ []) := .intro h .empty (hnil.symm ▸ hplain)
  rwa [hnil] at htail

theorem LegacyTail.numeral {tail : List Char} (h : LegacyTail tail) (hds : Digits 10 text ds)
    (hdecimal : '8' ∈ text ∨ '9' ∈ text) (hplain : '_' ∉ text) :
    IsNumeral false ('0' :: (text ++ tail)) := by
  cases h with
  | intro hfraction hexponent htail =>
    exact ⟨_, .legacyDecimal rfl hds hdecimal hfraction hexponent
      (fun h => (List.mem_append.1 h).elim hplain htail)⟩

theorem IsNumeral.ofLegacyDecimal (hds : Digits 10 text ds) (hdecimal : '8' ∈ text ∨ '9' ∈ text)
    (hplain : '_' ∉ text) : IsNumeral false ('0' :: text) := by
  have hnumeral := (LegacyTail.ofFraction .empty List.not_mem_nil).numeral hds hdecimal hplain
  rwa [List.append_nil] at hnumeral

theorem finishLegacyNumber_octal (h : AreDigits 8 text) (cs : List Char) :
    finishLegacyNumber text cs =
      .done (.legacyOctal (Double.ofRadixDigits 8 (text.filterMap (digitValue? 8)))) cs := by
  have hall : text.all isOctalDigit = true := List.all_eq_true.2 h
  rw [finishLegacyNumber, if_pos hall]
  rfl

theorem legacyOctal_settles (hds : Digits 8 text ds) (hplain : '_' ∉ text) :
    GoesOn (IsNumeral false) ('0' :: text) after ∨
      Settles after (readLegacyNumber false (text ++ after))
        (.legacyOctal (Double.ofRadixDigits 8 ds)) after := by
  by_cases hdigit : after.head?.any isDecimalDigit = true
  · obtain ⟨c, cs, rfl, hc⟩ := exists_cons_of_head? hdigit
    refine Or.inl ⟨[c], List.cons_ne_nil _ _, ⟨cs, rfl⟩, ?_⟩
    have hplain' := separator_notMem_append_digit hplain hc
    rcases isDecimalDigit_iff.1 hc with hoctal | hdecimal
    · obtain ⟨d, hd⟩ := exists_digitValue? hoctal
      exact ⟨_, .legacyOctal rfl (hds.append (.single hd)) hplain'⟩
    · obtain ⟨d, hd⟩ := exists_decimalValue hc
      refine .ofLegacyDecimal (hds.ten_of_eight.append (.single hd)) ?_ hplain'
      rcases hdecimal with rfl | rfl
      · exact Or.inl (List.mem_append_right text List.mem_cons_self)
      · exact Or.inr (List.mem_append_right text List.mem_cons_self)
  · have hdigits := hds.areDigits hplain
    have hne : text ≠ [] := by
      obtain ⟨c, text', rfl, -⟩ := hds.exists_cons
      exact List.cons_ne_nil _ _
    have hvalues : text.filterMap (digitValue? 8) = ds := by
      have hvalues := hds.haveValues.filterMap_eq
      rwa [withoutSeparators_of_not_mem hplain] at hvalues
    rw [readLegacyNumber_digits (hds.ten_of_eight.areDigits hplain) hne
      (Bool.not_eq_true _ ▸ hdigit), if_neg Bool.false_ne_true]
    refine Or.inr ?_
    split
    · exact Settles.refused (glued_of_bigMark ‹_›)
    · rw [finishLegacyNumber_octal hdigits, hvalues]
      exact Or.inl rfl

/-- Behind the digits of an exponent without separators, a separator is always wrong: it is refused
at once, or it makes the literal unreadable. -/
theorem legacyExponent_settles {mantissa : List Char} {d : Decimal}
    (hmantissa : ∀ c ∈ mantissa, isExponentMark c = false) (hexponent : Exponent exponent x)
    (hplain : '_' ∉ exponent) (hvalue : Decimal.ofChars? (mantissa ++ exponent) = some d) :
    GoesOn (fun t => '_' ∉ t ∧ ∃ x, Exponent t x) exponent after ∨
      Settles after
        ((readOptionalExponent >>= fun exponent => decimalToken (mantissa ++ exponent))
          (exponent ++ after)) (.number d.toDouble) after := by
  have htoken : Settles after (decimalToken (mantissa ++ exponent) after) (.number d.toDouble)
      after := Or.inl (decimalToken_of_some hvalue after)
  rcases hexponent.eq_nil_or with rfl | ⟨mark, tail, rfl, hmark⟩
  · exact (readOptionalExponent_goesOn after).imp_right fun hsettles => hsettles.bind htoken
  have hread := hexponent.readOptionalExponent_append (List.cons_ne_nil _ _) after
  by_cases hdigit : after.head?.any isDecimalDigit = true
  · obtain ⟨c, cs, rfl, hc⟩ := exists_cons_of_head? hdigit
    obtain ⟨d, hd⟩ := exists_decimalValue hc
    refine Or.inl ⟨[c], List.cons_ne_nil _ _, ⟨cs, rfl⟩, ?_, ?_⟩
    · exact separator_notMem_append_digit hplain hc
    · exact hexponent.append_digits (List.cons_ne_nil _ _) fun t ds hds =>
        ⟨_, hds.append (.single hd)⟩
  refine Or.inr ?_
  by_cases hsep : after.head? = some '_'
  · obtain ⟨cs, rfl⟩ := List.head?_eq_some_iff.1 hsep
    have hglued : ('_' :: cs).head?.any isGluedToNumber = true :=
      show isGluedToNumber '_' = true by decide
    cases hdigits : readDigits 10 true ('_' :: cs) with
    | refused complaint rest =>
      rw [hdigits] at hread
      exact Settles.bind (Or.inr ⟨⟨complaint, rest, hread⟩, hglued⟩) htoken
    | done digits rest =>
      rw [hdigits] at hread
      have hmem : '_' ∈ tail ++ digits :=
        List.mem_append_right tail (separator_mem_of_readDigits hdigits)
      have hnone := decimalToken_of_none (ofChars?_of_separator hmantissa hmark hmem) rest
      exact Or.inr ⟨⟨_, _, (bind_of_done hread).trans hnone⟩, hglued⟩
  · have hstop : after.head?.any (fun c => isDigitOf 10 c || c == '_') = false := by
      cases after with
      | nil => rfl
      | cons c cs =>
        rw [List.head?_cons, Option.any_some, Bool.or_eq_false_iff, beq_eq_false_iff_ne]
        exact ⟨Bool.not_eq_true _ ▸ hdigit, fun hc => hsep (congrArg some hc)⟩
    rw [readDigits_of_head? hstop] at hread
    refine Settles.bind (Or.inl (hread.trans ?_)) htoken
    exact congrArg (Read.done · after) (List.append_nil _)

/-- The rest of an old decimal literal behind its whole part. -/
def readLegacyTail (whole : List Char) : Reader TokenKind := do
  let fraction ← readLegacyFraction
  let exponent ← readOptionalExponent
  decimalToken (whole ++ fraction ++ exponent)

theorem finishLegacyNumber_decimal (h : '8' ∈ text ∨ '9' ∈ text) :
    finishLegacyNumber text = readLegacyTail ('0' :: text) := by
  have hall : ¬text.all isOctalDigit = true := by
    rw [List.all_eq_true]
    intro hoctal
    rcases h with h | h
    · exact absurd (hoctal _ h) (by decide)
    · exact absurd (hoctal _ h) (by decide)
  rw [finishLegacyNumber, if_neg hall]
  rfl

theorem readLegacyTail_settles {whole : List Char} (hwhole : HaveValues 10 whole ds) (hne : ds ≠ [])
    (hwholePlain : '_' ∉ whole) (hfraction : Fraction fraction fs) (hexponent : Exponent exponent x)
    (hplain : '_' ∉ fraction ++ exponent) :
    GoesOn LegacyTail (fraction ++ exponent) after ∨
      Settles after (readLegacyTail whole (fraction ++ (exponent ++ after)))
        (.number (decimalOf ds fs x).toDouble) after := by
  have hfractionPlain : '_' ∉ fraction := fun h => hplain (List.mem_append_left _ h)
  have hexponentPlain : '_' ∉ exponent := fun h => hplain (List.mem_append_right _ h)
  have hmark := isExponentMark_mantissa hwhole hfraction
  rw [withoutSeparators_of_not_mem hfractionPlain] at hmark
  have hvalue : Decimal.ofChars? (whole ++ fraction ++ exponent) = some (decimalOf ds fs x) := by
    have hclean : '_' ∉ whole ++ (fraction ++ exponent) := fun h =>
      (List.mem_append.1 h).elim hwholePlain hplain
    rw [List.append_assoc, ← withoutSeparators_of_not_mem hclean]
    rw [← withoutSeparators_of_not_mem hwholePlain] at hwhole
    exact ofChars?_literal hwhole hfraction hexponent
      (List.append_ne_nil_of_left_ne_nil hne fs)
  -- behind the fraction only the exponent is left
  have hfinish (hread : readLegacyFraction (fraction ++ (exponent ++ after)) =
      .done fraction (exponent ++ after)) :
      GoesOn LegacyTail (fraction ++ exponent) after ∨
        Settles after (readLegacyTail whole (fraction ++ (exponent ++ after)))
          (.number (decimalOf ds fs x).toDouble) after := by
    rw [readLegacyTail, bind_of_done hread]
    refine (legacyExponent_settles hmark hexponent hexponentPlain hvalue).imp_left fun hon => ?_
    refine hon.imp fun more ⟨hmore, y, hy⟩ => ?_
    rw [List.append_assoc]
    exact .intro hfraction hy fun h => (List.mem_append.1 h).elim hfractionPlain hmore
  cases hfraction with
  | empty =>
    by_cases hpoint : (exponent ++ after).head? = some '.'
    · obtain rfl : exponent = [] :=
        hexponent.eq_nil_of_head? (p := (· == '.')) rfl rfl (by rw [hpoint]; rfl)
      obtain ⟨cs, rfl⟩ := List.head?_eq_some_iff.1 hpoint
      exact Or.inl ⟨['.'], List.cons_ne_nil _ _, ⟨cs, rfl⟩,
        .ofFraction (.point .empty) (by decide)⟩
    · exact hfinish (bind_of_done (skipIf_of_ne hpoint))
  | @point text fs hds =>
    by_cases hdigit : (exponent ++ after).head?.any isDecimalDigit = true
    · obtain rfl := hexponent.eq_nil_of_head? rfl rfl hdigit
      obtain ⟨c, cs, rfl, hc⟩ := exists_cons_of_head? hdigit
      obtain ⟨d, hd⟩ := exists_decimalValue hc
      refine Or.inl ⟨[c], List.cons_ne_nil _ _, ⟨cs, rfl⟩, ?_⟩
      rw [List.append_nil]
      exact .ofFraction (.point (.digits (hds.append_digit hd)))
        (separator_notMem_append_digit hfractionPlain hc)
    · refine hfinish ((bind_of_done (skipIf_cons '.' _)).trans ?_)
      have hdigits := hds.areDigits fun h => hfractionPlain (List.mem_cons_of_mem _ h)
      exact bind_of_done (takeWhile_append hdigits (Bool.not_eq_true _ ▸ hdigit))

theorem legacyDecimal_settles (hds : Digits 10 text ds) (hdecimal : '8' ∈ text ∨ '9' ∈ text)
    (hfraction : Fraction fraction fs) (hexponent : Exponent exponent x)
    (hplain : '_' ∉ text ++ (fraction ++ exponent)) :
    GoesOn (IsNumeral false) ('0' :: (text ++ (fraction ++ exponent))) after ∨
      Settles after (readLegacyNumber false (text ++ (fraction ++ (exponent ++ after))))
        (.number (decimalOf (0 :: ds) fs x).toDouble) after := by
  have hplainText : '_' ∉ text := fun h => hplain (List.mem_append_left _ h)
  have hplainTail : '_' ∉ fraction ++ exponent := fun h => hplain (List.mem_append_right _ h)
  by_cases hdigit : (fraction ++ (exponent ++ after)).head?.any isDecimalDigit = true
  · obtain ⟨rfl, rfl⟩ := tail_eq_nil_of_head? rfl rfl rfl hfraction hexponent hdigit
    obtain ⟨c, cs, hcs, hc⟩ := exists_cons_of_head? hdigit
    obtain ⟨d, hd⟩ := exists_decimalValue hc
    refine Or.inl ⟨[c], List.cons_ne_nil _ _, ⟨cs, hcs.symm⟩, ?_⟩
    rw [List.append_nil, List.append_nil]
    exact .ofLegacyDecimal (hds.append (.single hd))
      (hdecimal.imp (List.mem_append_left _) (List.mem_append_left _))
      (separator_notMem_append_digit hplainText hc)
  have hdigits := hds.areDigits hplainText
  have hne : text ≠ [] := by
    obtain ⟨c, text', rfl, -⟩ := hds.exists_cons
    exact List.cons_ne_nil _ _
  rw [readLegacyNumber_digits hdigits hne (Bool.not_eq_true _ ▸ hdigit), if_neg Bool.false_ne_true]
  split
  · rename_i hn
    obtain ⟨rfl, rfl⟩ := tail_eq_nil_of_head? rfl rfl rfl hfraction hexponent hn
    exact Or.inr (Settles.refused (glued_of_bigMark hn))
  · rw [finishLegacyNumber_decimal hdecimal]
    have hwhole : HaveValues 10 ('0' :: text) (0 :: ds) := by
      have hvalues := hds.haveValues
      rw [withoutSeparators_of_not_mem hplainText] at hvalues
      exact .cons rfl hvalues
    have hwholePlain : '_' ∉ '0' :: text := by
      rw [List.mem_cons]
      exact fun h => h.elim (by decide) hplainText
    refine (readLegacyTail_settles hwhole (List.cons_ne_nil _ _) hwholePlain hfraction hexponent
      hplainTail).imp_left fun hon => ?_
    refine hon.imp fun more htail => ?_
    rw [List.cons_append, List.append_assoc]
    exact htail.numeral hds hdecimal hplainText

end

/-! ## All notations -/

section

variable {strict : Bool} {after : List Char}

/-- Behind a lone zero, a radix mark or a digit starts another notation, if there is one. -/
theorem loneZero_settles (h : after.head?.any leadsOn = true) (kind : TokenKind) :
    GoesOn (IsNumeral strict) ['0'] after ∨
      Settles after (readNumberBody strict '0' after) kind after := by
  obtain ⟨c, cs, rfl, hc⟩ := exists_cons_of_head? h
  cases hmark : RadixMark.ofChar? c with
  | some mark =>
    rw [readNumberBody_radix hmark]
    by_cases hdigit : cs.head?.any (isDigitOf mark.radix) = true
    · obtain ⟨e, cs, rfl, he⟩ := exists_cons_of_head? hdigit
      obtain ⟨d, hd⟩ := exists_digitValue? he
      exact Or.inl ⟨[c, e], List.cons_ne_nil _ _, ⟨cs, rfl⟩, _, .radix hmark (.single hd)⟩
    · rw [readRadixLiteral_of_head? (Bool.not_eq_true _ ▸ hdigit)]
      exact Or.inr (Settles.refused (isGluedToNumber_radixLetter hmark))
  | none =>
    have hlegacy : (isDecimalDigit c || c == '_') = true := by
      rwa [leadsOn, hmark, Option.isSome_none, Bool.false_or] at hc
    rw [readNumberBody_legacy hlegacy]
    by_cases hdigit : isDecimalDigit c = true
    · cases strict with
      | true =>
        refine Or.inr ?_
        cases hread : readLegacyNumber true (c :: cs) with
        | done kind rest => exact absurd hread (readLegacyNumber_strict _ _ _)
        | refused complaint rest => exact Settles.refused (isGluedToNumber_of_digit hdigit)
      | false =>
        refine Or.inl ⟨[c], List.cons_ne_nil _ _, ⟨cs, rfl⟩, ?_⟩
        have hplain : '_' ∉ [c] := separator_notMem_append_digit List.not_mem_nil hdigit
        rcases isDecimalDigit_iff.1 hdigit with hoctal | hdecimal
        · obtain ⟨d, hd⟩ := exists_digitValue? hoctal
          exact ⟨_, .legacyOctal rfl (.single hd) hplain⟩
        · obtain ⟨d, hd⟩ := exists_decimalValue hdigit
          refine .ofLegacyDecimal (.single hd) ?_ hplain
          rcases hdecimal with rfl | rfl
          · exact Or.inl List.mem_cons_self
          · exact Or.inr List.mem_cons_self
    · obtain rfl : c = '_' := by simpa [hdigit] using hlegacy
      rw [readLegacyNumber_separator]
      exact Or.inr (Settles.refused (show isGluedToNumber '_' = true by decide))

theorem leadingZero_settles {fraction exponent : List Char} {fs : List Nat} {x : Int}
    (hfraction : Fraction fraction fs) (hexponent : Exponent exponent x) :
    GoesOn (IsNumeral strict) ('0' :: (fraction ++ exponent)) after ∨
      Settles after (readNumberBody strict '0' (fraction ++ (exponent ++ after)))
        (.number (decimalOf [0] fs x).toDouble) after := by
  by_cases hleads : (fraction ++ (exponent ++ after)).head?.any leadsOn = true
  · obtain ⟨rfl, rfl⟩ := tail_eq_nil_of_head? rfl rfl rfl hfraction hexponent hleads
    exact loneZero_settles hleads _
  · exact zero_settles hfraction hexponent (Bool.not_eq_true _ ▸ hleads)

theorem readNumberBody_digits {text : List Char} {ds : List Nat} (hds : Digits 10 text ds)
    (after : List Char) :
    readNumberBody strict '0' (text ++ after) = readLegacyNumber strict (text ++ after) := by
  obtain ⟨c, text', rfl, hc⟩ := hds.exists_cons
  exact readNumberBody_legacy (Bool.or_eq_true_iff.2 (Or.inl hc)) _

/-- A text of the grammar goes on, or it is what is read, unless something is glued to it. -/
theorem Numeral.settles {text : List Char} {kind : TokenKind} (h : Numeral strict text kind)
    (after : List Char) :
    ∃ first rest, text = first :: rest ∧
      (GoesOn (IsNumeral strict) text after ∨
        Settles after (readNumberBody strict first (rest ++ after)) kind after) := by
  cases h with
  | @decimal whole fraction exponent ds fs x hwhole hfraction hexponent =>
    cases hwhole with
    | zero =>
      refine ⟨'0', fraction ++ exponent, rfl, ?_⟩
      rw [List.append_assoc]
      exact leadingZero_settles hfraction hexponent
    | @nonzero first text ds hfirst hds =>
      refine ⟨first, text ++ (fraction ++ exponent), rfl, ?_⟩
      rw [List.append_assoc, List.append_assoc, readNumberBody_of_ne hfirst]
      exact decimal_settles hfirst hds hfraction hexponent
  | @point text exponent fs x hds hexponent =>
    refine ⟨'.', text ++ exponent, rfl, ?_⟩
    rw [List.append_assoc, readNumberBody_of_ne (by decide)]
    exact point_settles hds hexponent after
  | @radix letter mark text ds hletter hds =>
    refine ⟨'0', letter :: text, rfl, ?_⟩
    rw [List.cons_append, readNumberBody_radix hletter]
    exact radix_settles hletter hds after
  | @bigDecimal whole ds hwhole =>
    obtain ⟨first, text, rfl⟩ : ∃ first text, whole = first :: text := by
      cases hwhole <;> exact ⟨_, _, rfl⟩
    refine ⟨first, text ++ ['n'], rfl, Or.inr (Or.inl ?_)⟩
    rw [List.append_assoc]
    exact bigDecimal_read hwhole after
  | @bigRadix letter mark text ds hletter hds =>
    refine ⟨'0', letter :: (text ++ ['n']), rfl, Or.inr (Or.inl ?_)⟩
    rw [List.cons_append, List.append_assoc, readNumberBody_radix hletter]
    exact bigRadix_read hds after
  | @legacyOctal text ds hstrict hds hplain =>
    subst hstrict
    refine ⟨'0', text, rfl, ?_⟩
    rw [readNumberBody_digits hds.ten_of_eight]
    exact legacyOctal_settles hds hplain
  | @legacyDecimal text fraction exponent ds fs x hstrict hds hdecimal hfraction hexponent hplain =>
    subst hstrict
    refine ⟨'0', text ++ (fraction ++ exponent), rfl, ?_⟩
    rw [List.append_assoc, List.append_assoc, readNumberBody_digits hds]
    exact legacyDecimal_settles hds hdecimal hfraction hexponent hplain

end

/-! ## The longest one -/

/-- What is read of a number that nothing goes on with, and where something is glued to it. -/
theorem readNumber_of_settles {strict : Bool} {first : Char} {cs after : List Char}
    {kind : TokenKind} (h : Settles after (readNumberBody strict first cs) kind after) :
    if after.head?.any isGluedToNumber then
      ∃ complaint rest, readNumber strict first cs = .refused complaint rest
    else readNumber strict first cs = .done kind after := by
  obtain hdone | ⟨⟨complaint, left, hrefused⟩, hglued⟩ := h
  · have hread : readNumber strict first cs =
        (if after.head?.any isGluedToNumber then refuse .identifierAfterNumber
          else Pure.pure kind : Reader TokenKind) after := bind_of_done hdone
    rw [hread]
    split
    · exact ⟨_, _, rfl⟩
    · rfl
  · rw [if_pos hglued]
    refine ⟨complaint, left, ?_⟩
    show Reader.bind (readNumberBody strict first) _ cs = _
    rw [Reader.bind, hrefused]

/-- The longest text of the grammar that a source starts with, and its token. -/
structure IsLongestNumeral (strict : Bool) (source text : List Char) (kind : TokenKind) : Prop where
  numeral : Numeral strict text kind
  begins : text <+: source
  length_le : ∀ text', IsNumeral strict text' → text' <+: source → text'.length ≤ text.length

theorem exists_longestNumeral {strict : Bool} {source text : List Char}
    (h : IsNumeral strict text) (hbegins : text <+: source) :
    ∃ text kind, IsLongestNumeral strict source text kind := by
  -- a longer text leaves less of the source behind it
  by_cases hlonger : ∃ text', IsNumeral strict text' ∧ text' <+: source ∧ text.length < text'.length
  · obtain ⟨text', h', hbegins', hlength⟩ := hlonger
    exact exists_longestNumeral h' hbegins'
  · obtain ⟨kind, hkind⟩ := h
    refine ⟨text, kind, hkind, hbegins, fun text' h' hbegins' => ?_⟩
    exact Nat.le_of_not_lt fun hlength => hlonger ⟨text', h', hbegins', hlength⟩
termination_by source.length - text.length
decreasing_by
  have hbound := hbegins'.length_le
  omega

theorem IsLongestNumeral.not_goesOn {strict : Bool} {text after : List Char} {kind : TokenKind}
    (h : IsLongestNumeral strict (text ++ after) text kind) :
    ¬GoesOn (IsNumeral strict) text after := by
  rintro ⟨more, hne, hmore, hnumeral⟩
  have hlength := h.length_le _ hnumeral ((List.prefix_append_right_inj text).2 hmore)
  rw [List.length_append] at hlength
  have hpos := List.length_pos_iff.2 hne
  omega

theorem mem_of_isDecimalDigit {c : Char} (h : isDecimalDigit c = true) :
    c ∈ ['0', '1', '2', '3', '4', '5', '6', '7', '8', '9'] := by
  have hdigits : ∀ n < 10, Char.ofNat (48 + n) ∈
      ['0', '1', '2', '3', '4', '5', '6', '7', '8', '9'] := by decide
  have hrange : 48 ≤ c.toNat ∧ c.toNat ≤ 57 := by
    simp only [isDecimalDigit, isDigitOf, digitValue?, Option.isSome_ite] at h
    grind
  have hc := hdigits (c.toNat - 48) (by omega)
  rwa [Nat.add_sub_cancel' hrange.1, Char.ofNat_toNat] at hc

theorem lex_digit {c : Char} (h : isDecimalDigit c = true) (strict : Bool) (goal : Goal)
    (n : Nesting) (cs : List Char) :
    lex strict goal n (c :: cs) = lexRead n id (readNumber strict c cs) := by
  have hany : ['0', '1', '2', '3', '4', '5', '6', '7', '8', '9'].any (fun c =>
      (c == '\\' || isIdentifierStart c) || (c == '\'' || c == '"') || c == '\x60' ||
        c == '\x7d' || c == '/') = false := by decide
  have hc := List.any_eq_false.1 hany c (mem_of_isDecimalDigit h)
  rw [Bool.not_eq_true, Bool.or_eq_false_iff, Bool.or_eq_false_iff, Bool.or_eq_false_iff,
    Bool.or_eq_false_iff] at hc
  obtain ⟨⟨⟨⟨hname, hquote⟩, hmark⟩, hbrace⟩, hslash⟩ := hc
  simp only [lex, hname, hquote, hmark, hbrace, hslash, h, Bool.false_and, Bool.true_or,
    Bool.false_eq_true, if_true, if_false]

/-- Where a number starts, the next token is what the number reader makes of the source. -/
theorem Scanner.next_number {s : Scanner} {c : Char} {cs : List Char} (hrest : s.rest = c :: cs)
    (hstart : isDecimalDigit c = true ∨ c = '.' ∧ cs.head?.any isDecimalDigit = true)
    (goal : Goal) :
    (s.next goal).1.kind = (readNumber s.strict c cs).kind id ∧
      (s.next goal).1.raw =
        String.ofList (textBefore (c :: cs) (readNumber s.strict c cs).rest) := by
  have htrivia : ∀ atStart lineStart, triviaStart atStart lineStart (c :: cs) = .none := by
    rcases hstart with hdigit | ⟨rfl, -⟩
    · have hmem := mem_of_isDecimalDigit hdigit
      simp only [List.mem_cons, List.not_mem_nil, or_false] at hmem
      rcases hmem with rfl | rfl | rfl | rfl | rfl | rfl | rfl | rfl | rfl | rfl
      all_goals exact fun _ _ => rfl
    · exact fun _ _ => rfl
  have hlex : lex s.strict goal s.nesting (c :: cs) =
      lexRead s.nesting id (readNumber s.strict c cs) := by
    rcases hstart with hdigit | ⟨rfl, hdigit⟩
    · exact lex_digit hdigit ..
    · rw [lex_point, if_pos hdigit]
  have hnext := next_of_token hrest htrivia goal
  rw [hlex] at hnext
  exact hnext

/-- Where a number starts, some text of the grammar starts. -/
theorem exists_numeral {c : Char} {cs : List Char}
    (hstart : isDecimalDigit c = true ∨ c = '.' ∧ cs.head?.any isDecimalDigit = true)
    (strict : Bool) : ∃ text, IsNumeral strict text ∧ text <+: c :: cs := by
  rcases hstart with hdigit | ⟨rfl, hdigit⟩
  · refine ⟨[c], ?_, ⟨cs, rfl⟩⟩
    by_cases hzero : c = '0'
    · subst hzero
      exact .ofInteger .zero
    · obtain ⟨d, hd⟩ := exists_decimalValue hdigit
      exact .ofInteger (.nonzero hzero (.single hd))
  · obtain ⟨e, cs, rfl, he⟩ := exists_cons_of_head? hdigit
    obtain ⟨d, hd⟩ := exists_decimalValue he
    exact ⟨['.', e], ⟨_, .point (.single hd) .empty⟩, ⟨cs, rfl⟩⟩

/-- Where a number starts, there is a longest text of the grammar. If a digit, a backslash or the
start of a name follows it, the token is invalid; and otherwise the token is that of the longest
text, which is also its raw text. -/
theorem number_token_longest {s : Scanner} {c : Char} {cs : List Char} (hrest : s.rest = c :: cs)
    (hstart : isDecimalDigit c = true ∨ c = '.' ∧ cs.head?.any isDecimalDigit = true)
    (goal : Goal) :
    (∃ text kind, IsLongestNumeral s.strict s.rest text kind) ∧
      ∀ text after kind, s.rest = text ++ after → IsLongestNumeral s.strict s.rest text kind →
        if after.head?.any isGluedToNumber then (s.next goal).1.kind.isInvalid = true
        else (s.next goal).1.kind = kind ∧ (s.next goal).1.raw = String.ofList text := by
  constructor
  · obtain ⟨text, htext, hbegins⟩ := exists_numeral hstart s.strict
    rw [hrest]
    exact exists_longestNumeral htext hbegins
  · intro text after kind hcut hlongest
    rw [hcut] at hlongest
    obtain ⟨first, rest, rfl, hon | hsettles⟩ := hlongest.numeral.settles after
    · exact absurd hon hlongest.not_goesOn
    have hcs : c :: cs = first :: (rest ++ after) := hrest.symm.trans hcut
    obtain ⟨rfl, rfl⟩ := List.cons.inj hcs
    obtain ⟨hkind, hraw⟩ := s.next_number hrest hstart goal
    have hread := readNumber_of_settles hsettles
    rw [hkind, hraw]
    split
    · rename_i hglued
      rw [if_pos hglued] at hread
      obtain ⟨complaint, left, hrefused⟩ := hread
      rw [hrefused]
      rfl
    · rename_i hglued
      rw [if_neg hglued] at hread
      rw [hread]
      refine ⟨rfl, ?_⟩
      rw [Read.rest_done, ← List.cons_append, textBefore_append_left]

/-- A binary literal with a separator, and behind its mark a number of its own. -/
theorem number_token_longest_binary :
    let s := Scanner.ofString "0b1_01n.5" true
    (s.next .regExp).1.kind = .bigInt 5 ∧
      ∃ text, IsLongestNumeral s.strict s.rest text (.bigInt 5) ∧
        (s.next .regExp).1.raw = String.ofList text := by
  intro s
  have hrest : s.rest = '0' :: s.rest.drop 1 := by decide +kernel
  have hkind : (s.next .regExp).1.kind = .bigInt 5 := by decide +kernel
  obtain ⟨⟨text, kind, hlongest⟩, hread⟩ :=
    number_token_longest hrest (Or.inl (by decide)) .regExp
  obtain ⟨after, hafter⟩ := hlongest.begins
  replace hread := hread text after kind hafter.symm hlongest
  split at hread
  · rw [hkind] at hread
    cases hread
  · obtain ⟨hsame, hraw⟩ := hread
    obtain rfl : TokenKind.bigInt 5 = kind := hkind.symm.trans hsame
    exact ⟨hkind, text, hlongest, hraw⟩

end Ecma
