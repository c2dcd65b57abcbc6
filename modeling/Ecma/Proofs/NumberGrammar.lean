import Mathlib.Data.List.Forall2
import Ecma.Proofs.EscapeGrammar

/-!
# The grammar of numbers

The notations of numbers, form by form, each with its token: `Numeral`. Digits carry their values,
so that the grammar says which number is meant and not only how it is written. What is read of a
decimal literal, once its separators are dropped, is the number that the grammar has
(`ofChars?_literal`).
-/

namespace Ecma

/-! ## Forms -/

/-- Digits of a radix, with at most one separator between two of them, and their values. -/
inductive Digits (radix : Nat) : List Char → List Nat → Prop where
  | single {c : Char} {d : Nat} (hd : digitValue? radix c = some d) : Digits radix [c] [d]
  | cons {c : Char} {d : Nat} {text : List Char} {ds : List Nat}
      (hd : digitValue? radix c = some d) (hds : Digits radix text ds) :
      Digits radix (c :: text) (d :: ds)
  | separated {c : Char} {d : Nat} {text : List Char} {ds : List Nat}
      (hd : digitValue? radix c = some d) (hds : Digits radix text ds) :
      Digits radix (c :: '_' :: text) (d :: ds)

/-- A decimal integer: a lone zero, or digits that do not start with a zero. -/
inductive DecimalInteger : List Char → List Nat → Prop where
  | zero : DecimalInteger ['0'] [0]
  | nonzero {c : Char} {text : List Char} {ds : List Nat} (hc : c ≠ '0')
      (hds : Digits 10 (c :: text) ds) : DecimalInteger (c :: text) ds

/-- What may stand behind a point. -/
inductive FractionDigits : List Char → List Nat → Prop where
  | empty : FractionDigits [] []
  | digits {text : List Char} {ds : List Nat} (hds : Digits 10 text ds) : FractionDigits text ds

/-- An optional point, and optional digits behind it. -/
inductive Fraction : List Char → List Nat → Prop where
  | empty : Fraction [] []
  | point {text : List Char} {ds : List Nat} (hds : FractionDigits text ds) :
      Fraction ('.' :: text) ds

/-- The signs of an exponent, of which none is one, and what they stand for. -/
def exponentSigns : List (List Char × Int) := [([], 1), (['+'], 1), (['-'], -1)]

/-- An optional exponent and its value. -/
inductive Exponent : List Char → Int → Prop where
  | empty : Exponent [] 0
  | marked {mark : Char} {sign text : List Char} {unit : Int} {ds : List Nat}
      (hmark : isExponentMark mark = true) (hsign : (sign, unit) ∈ exponentSigns)
      (hds : Digits 10 text ds) : Exponent (mark :: (sign ++ text)) (unit * ofDigits 10 ds)

/-- The decimal number with these digits before and behind the point and this exponent. -/
def decimalOf (whole fraction : List Nat) (exponent : Int) : Decimal :=
  ⟨ofDigits 10 (whole ++ fraction), exponent - fraction.length⟩

/-- The text of a number and its token. The old forms, digits behind a leading zero, are there in
sloppy code only, and have no separators. -/
inductive Numeral (strict : Bool) : List Char → TokenKind → Prop where
  | decimal {whole fraction exponent : List Char} {ds fs : List Nat} {x : Int}
      (hwhole : DecimalInteger whole ds) (hfraction : Fraction fraction fs)
      (hexponent : Exponent exponent x) :
      Numeral strict (whole ++ (fraction ++ exponent)) (.number (decimalOf ds fs x).toDouble)
  | point {text exponent : List Char} {fs : List Nat} {x : Int} (hds : Digits 10 text fs)
      (hexponent : Exponent exponent x) :
      Numeral strict ('.' :: (text ++ exponent)) (.number (decimalOf [] fs x).toDouble)
  | radix {letter : Char} {mark : RadixMark} {text : List Char} {ds : List Nat}
      (hletter : RadixMark.ofChar? letter = some mark) (hds : Digits mark.radix text ds) :
      Numeral strict ('0' :: letter :: text) (.number (Double.ofRadixDigits mark.radix ds))
  | bigDecimal {whole : List Char} {ds : List Nat} (hwhole : DecimalInteger whole ds) :
      Numeral strict (whole ++ ['n']) (.bigInt (ofDigits 10 ds))
  | bigRadix {letter : Char} {mark : RadixMark} {text : List Char} {ds : List Nat}
      (hletter : RadixMark.ofChar? letter = some mark) (hds : Digits mark.radix text ds) :
      Numeral strict ('0' :: letter :: (text ++ ['n'])) (.bigInt (ofDigits mark.radix ds))
  | legacyOctal {text : List Char} {ds : List Nat} (hstrict : strict = false)
      (hds : Digits 8 text ds) (hplain : '_' ∉ text) :
      Numeral strict ('0' :: text) (.legacyOctal (Double.ofRadixDigits 8 ds))
  | legacyDecimal {text fraction exponent : List Char} {ds fs : List Nat} {x : Int}
      (hstrict : strict = false) (hds : Digits 10 text ds) (hdecimal : '8' ∈ text ∨ '9' ∈ text)
      (hfraction : Fraction fraction fs) (hexponent : Exponent exponent x)
      (hplain : '_' ∉ text ++ (fraction ++ exponent)) :
      Numeral strict ('0' :: (text ++ (fraction ++ exponent)))
        (.number (decimalOf (0 :: ds) fs x).toDouble)

/-! ## Digits -/

theorem isDigitOf_separator (radix : Nat) : isDigitOf radix '_' = false := by
  simp [isDigitOf, digitValue?]

theorem exists_decimalValue {c : Char} (h : isDecimalDigit c = true) :
    ∃ d, digitValue? 10 c = some d := exists_digitValue? h

/-- Characters that are digits with these values. -/
def HaveValues (radix : Nat) (cs : List Char) (ds : List Nat) : Prop :=
  List.Forall₂ (fun c d => digitValue? radix c = some d) cs ds

namespace HaveValues

variable {radix : Nat} {cs : List Char} {ds : List Nat}

theorem areDigits (h : HaveValues radix cs ds) : AreDigits radix cs := by
  induction h with
  | nil => exact areDigits_nil radix
  | cons hd _ ih => exact areDigits_cons.2 ⟨isDigitOf_of_digitValue? hd, ih⟩

theorem filterMap_eq (h : HaveValues radix cs ds) : cs.filterMap (digitValue? radix) = ds := by
  induction h with
  | nil => rfl
  | cons hd _ ih => rw [List.filterMap_cons_some hd, ih]

theorem append {cs' : List Char} {ds' : List Nat} (h : HaveValues radix cs ds)
    (h' : HaveValues radix cs' ds') : HaveValues radix (cs ++ cs') (ds ++ ds') :=
  List.rel_append h h'

end HaveValues

theorem withoutSeparators_of_not_mem {cs : List Char} (h : '_' ∉ cs) :
    withoutSeparators cs = cs := by
  refine List.filter_eq_self.2 fun c hc => ?_
  rw [bne_iff_ne]
  rintro rfl
  exact h hc

theorem withoutSeparators_append (cs cs' : List Char) :
    withoutSeparators (cs ++ cs') = withoutSeparators cs ++ withoutSeparators cs' :=
  List.filter_append ..

theorem withoutSeparators_cons {c : Char} (hc : c ≠ '_') (cs : List Char) :
    withoutSeparators (c :: cs) = c :: withoutSeparators cs :=
  List.filter_cons_of_pos (bne_iff_ne.2 hc)

theorem ne_separator_of_digitValue? {radix d : Nat} {c : Char} (h : digitValue? radix c = some d) :
    c ≠ '_' := by
  rintro rfl
  have hdigit := isDigitOf_of_digitValue? h
  rw [isDigitOf_separator] at hdigit
  cases hdigit

namespace Digits

variable {radix : Nat} {text : List Char} {ds : List Nat}

theorem haveValues (h : Digits radix text ds) :
    HaveValues radix (withoutSeparators text) ds := by
  induction h with
  | single hd =>
    rw [withoutSeparators_cons (ne_separator_of_digitValue? hd)]
    exact .cons hd .nil
  | cons hd _ ih =>
    rw [withoutSeparators_cons (ne_separator_of_digitValue? hd)]
    exact .cons hd ih
  | separated hd _ ih =>
    rw [withoutSeparators_cons (ne_separator_of_digitValue? hd)]
    exact .cons hd ih

theorem ne_nil (h : Digits radix text ds) : ds ≠ [] := by
  cases h <;> exact List.cons_ne_nil _ _

/-- Digits start with a digit. -/
theorem exists_cons (h : Digits radix text ds) :
    ∃ c text', text = c :: text' ∧ isDigitOf radix c = true := by
  cases h with
  | single hd => exact ⟨_, _, rfl, isDigitOf_of_digitValue? hd⟩
  | cons hd _ => exact ⟨_, _, rfl, isDigitOf_of_digitValue? hd⟩
  | separated hd _ => exact ⟨_, _, rfl, isDigitOf_of_digitValue? hd⟩

theorem head?_append (h : Digits radix text ds) (after : List Char) :
    (text ++ after).head?.any (isDigitOf radix) = true := by
  obtain ⟨c, text', rfl, hc⟩ := h.exists_cons
  exact hc

theorem append {text' : List Char} {ds' : List Nat} (h : Digits radix text ds)
    (h' : Digits radix text' ds') : Digits radix (text ++ text') (ds ++ ds') := by
  induction h with
  | single hd => exact .cons hd h'
  | cons hd _ ih => exact .cons hd ih
  | separated hd _ ih => exact .separated hd ih

theorem append_separated {text' : List Char} {ds' : List Nat} (h : Digits radix text ds)
    (h' : Digits radix text' ds') : Digits radix (text ++ '_' :: text') (ds ++ ds') := by
  induction h with
  | single hd => exact .separated hd h'
  | cons hd _ ih => exact .cons hd ih
  | separated hd _ ih => exact .separated hd ih

/-- Digits without separators are digits and nothing else. -/
theorem areDigits (h : Digits radix text ds) (hplain : '_' ∉ text) : AreDigits radix text := by
  have hvalues := h.haveValues
  rw [withoutSeparators_of_not_mem hplain] at hvalues
  exact hvalues.areDigits

/-- Digits in front are read before all else. -/
theorem readDigits_append (h : Digits radix text ds) (afterDigit : Bool) (after : List Char) :
    readDigits radix afterDigit (text ++ after) =
      (readDigits radix true after).map (text ++ ·) := by
  induction h generalizing afterDigit with
  | single hd => exact readDigits_digit (isDigitOf_of_digitValue? hd) afterDigit after
  | @cons c d text ds hd _ ih =>
    rw [List.cons_append, readDigits_digit (isDigitOf_of_digitValue? hd), ih, Read.map_map]
    rfl
  | @separated c d text ds hd hds ih =>
    rw [List.cons_append, readDigits_digit (isDigitOf_of_digitValue? hd), List.cons_append,
      readDigits_separator (isDigitOf_separator radix) (hds.head?_append after), ih, Read.map_map,
      Read.map_map]
    rfl

/-- Digits are read where none can follow. -/
theorem readDigits_eq (h : Digits radix text ds) (afterDigit : Bool) {after : List Char}
    (hafter : after.head?.any (fun c => isDigitOf radix c || c == '_') = false) :
    readDigits radix afterDigit (text ++ after) = .done text after := by
  rw [h.readDigits_append, readDigits_of_head? hafter]
  exact congrArg (Read.done · after) (List.append_nil text)

end Digits

/-! ## The value of a decimal literal -/

theorem splitAtFirst_of_all {p : Char → Bool} {cs : List Char} (h : ∀ c ∈ cs, p c = false) :
    splitAtFirst p cs = (cs, none) := by
  have hdrop : (cs.dropWhile fun c => !p c) = [] :=
    List.dropWhile_eq_nil_iff.2 fun c hc => by rw [h c hc]; rfl
  rw [splitAtFirst, hdrop]

theorem splitAtFirst_append {p : Char → Bool} {front : List Char} (h : ∀ c ∈ front, p c = false)
    {c : Char} (hc : p c = true) (back : List Char) :
    splitAtFirst p (front ++ c :: back) = (front, some back) := by
  have hfront : ∀ c ∈ front, (!p c) = true := fun c hc => by rw [h c hc]; rfl
  have hdrop : ((front ++ c :: back).dropWhile fun c => !p c) = c :: back := by
    rw [List.dropWhile_append_of_pos hfront, List.dropWhile_cons_of_neg (by simp [hc])]
  have htake : ((front ++ c :: back).takeWhile fun c => !p c) = front := by
    rw [List.takeWhile_append_of_pos hfront, List.takeWhile_cons_of_neg (by simp [hc]),
      List.append_nil]
  rw [splitAtFirst, hdrop]
  exact congrArg (·, some back) htake

theorem isExponentMark_iff {c : Char} : isExponentMark c = true ↔ c = 'e' ∨ c = 'E' := by
  simp [isExponentMark]

/-- A character that is no decimal digit does not stand among decimal digits. -/
theorem AreDigits.ne {cs : List Char} (h : AreDigits 10 cs) {c d : Char} (hc : c ∈ cs)
    (hd : isDecimalDigit d = false) : c ≠ d := by
  rintro rfl
  have hdigit : isDecimalDigit c = true := h c hc
  rw [hd] at hdigit
  cases hdigit

theorem AreDigits.isExponentMark_eq {cs : List Char} (h : AreDigits 10 cs) :
    ∀ c ∈ cs, isExponentMark c = false := by
  intro c hc
  have hlower : c ≠ 'e' := h.ne hc (by decide)
  have hupper : c ≠ 'E' := h.ne hc (by decide)
  simp [isExponentMark, hlower, hupper]

namespace Decimal

theorem digitsValue?_of_haveValues {cs : List Char} {ds : List Nat} (h : HaveValues 10 cs ds)
    (hne : ds ≠ []) : digitsValue? cs = some (ofDigits 10 ds) := by
  have hdigits : cs.all isDecimalDigit = true := List.all_eq_true.2 h.areDigits
  have hcs : cs.isEmpty = false := by
    cases h with
    | nil => exact absurd rfl hne
    | cons _ _ => rfl
  rw [digitsValue?, hdigits, hcs, numeralValue, h.filterMap_eq]
  rfl

theorem digitsValue?_of_separator {cs : List Char} (h : '_' ∈ cs) : digitsValue? cs = none := by
  have hdigits : cs.all isDecimalDigit = false := by
    rw [List.all_eq_false]
    exact ⟨'_', h, by decide⟩
  rw [digitsValue?, hdigits, Bool.and_false]
  rfl

theorem exponentOfChars?_of_sign {sign cs : List Char} {unit : Int} {ds : List Nat}
    (hsign : (sign, unit) ∈ exponentSigns) (h : HaveValues 10 cs ds) (hne : ds ≠ []) :
    exponentOfChars? (sign ++ cs) = some (unit * ofDigits 10 ds) := by
  have hvalue := digitsValue?_of_haveValues h hne
  simp only [exponentSigns, List.mem_cons, Prod.mk.injEq, List.not_mem_nil, or_false] at hsign
  obtain ⟨rfl, rfl⟩ | ⟨rfl, rfl⟩ | ⟨rfl, rfl⟩ := hsign
  · have hplus : ∀ cs', cs ≠ '+' :: cs' := by
      rintro cs' rfl
      exact (h.areDigits.ne List.mem_cons_self (by decide)) rfl
    have hminus : ∀ cs', cs ≠ '-' :: cs' := by
      rintro cs' rfl
      exact (h.areDigits.ne List.mem_cons_self (by decide)) rfl
    rw [List.nil_append, exponentOfChars?.eq_3 cs hplus hminus, hvalue, Int.one_mul]
    rfl
  · rw [List.singleton_append, exponentOfChars?, hvalue, Int.one_mul]
    rfl
  · rw [List.singleton_append, exponentOfChars?, hvalue, ← Int.neg_eq_neg_one_mul]
    rfl

theorem exponentOfChars?_of_separator {cs : List Char} (h : '_' ∈ cs) :
    exponentOfChars? cs = none := by
  unfold exponentOfChars?
  split
  · rw [digitsValue?_of_separator ((List.mem_cons.1 h).resolve_left (by decide))]
    rfl
  · rw [digitsValue?_of_separator ((List.mem_cons.1 h).resolve_left (by decide))]
    rfl
  · rw [digitsValue?_of_separator h]
    rfl

end Decimal

/-- A fraction without separators is empty, or it is a point and digits. -/
theorem Fraction.withoutSeparators_cases {text : List Char} {fs : List Nat} (h : Fraction text fs) :
    (withoutSeparators text = [] ∧ fs = []) ∨
      ∃ cs, withoutSeparators text = '.' :: cs ∧ HaveValues 10 cs fs := by
  cases h with
  | empty => exact Or.inl ⟨rfl, rfl⟩
  | @point text ds hds =>
    refine Or.inr ⟨withoutSeparators text, withoutSeparators_cons (by decide) text, ?_⟩
    cases hds with
    | empty => exact .nil
    | digits hds => exact hds.haveValues

section

variable {whole fraction exponent : List Char} {ds fs : List Nat} {x : Int}

theorem mantissaOfChars?_literal (hwhole : HaveValues 10 whole ds)
    (hfraction : Fraction fraction fs) (hne : ds ++ fs ≠ []) :
    Decimal.mantissaOfChars? (whole ++ withoutSeparators fraction) =
      some ⟨ofDigits 10 (ds ++ fs), -(fs.length : Int)⟩ := by
  have hpoint : ∀ c ∈ whole, (c == '.') = false := fun c hc => by
    rw [beq_eq_false_iff_ne]
    exact hwhole.areDigits.ne hc (by decide)
  obtain ⟨hnone, rfl⟩ | ⟨cs, hcs, hvalues⟩ := hfraction.withoutSeparators_cases
  · rw [List.append_nil] at hne
    have hvalue := Decimal.digitsValue?_of_haveValues hwhole hne
    rw [hnone, List.append_nil, List.append_nil, Decimal.mantissaOfChars?,
      splitAtFirst_of_all hpoint]
    simp only [Option.getD_none, List.append_nil, hvalue]
    rfl
  · have hvalue := Decimal.digitsValue?_of_haveValues (hwhole.append hvalues) hne
    rw [hcs, Decimal.mantissaOfChars?, splitAtFirst_append hpoint rfl]
    simp only [Option.getD_some, hvalue, Option.map_some, hvalues.length_eq]

/-- No exponent starts in the digits before it. -/
theorem isExponentMark_mantissa (hwhole : HaveValues 10 whole ds)
    (hfraction : Fraction fraction fs) :
    ∀ c ∈ whole ++ withoutSeparators fraction, isExponentMark c = false := by
  obtain ⟨hnone, -⟩ | ⟨cs, hcs, hvalues⟩ := hfraction.withoutSeparators_cases
  · rw [hnone, List.append_nil]
    exact hwhole.areDigits.isExponentMark_eq
  · rw [hcs, List.forall_mem_append, List.forall_mem_cons]
    exact ⟨hwhole.areDigits.isExponentMark_eq, rfl, hvalues.areDigits.isExponentMark_eq⟩

theorem separator_notMem_sign {sign : List Char} {unit : Int}
    (h : (sign, unit) ∈ exponentSigns) : '_' ∉ sign := by
  simp only [exponentSigns, List.mem_cons, Prod.mk.injEq, List.not_mem_nil, or_false] at h
  obtain ⟨rfl, -⟩ | ⟨rfl, -⟩ | ⟨rfl, -⟩ := h
  all_goals decide

/-- Without its separators, a decimal literal has the value that its digits and its exponent give
it. -/
theorem ofChars?_literal (hwhole : HaveValues 10 (withoutSeparators whole) ds)
    (hfraction : Fraction fraction fs) (hexponent : Exponent exponent x) (hne : ds ++ fs ≠ []) :
    Decimal.ofChars? (withoutSeparators (whole ++ (fraction ++ exponent))) =
      some (decimalOf ds fs x) := by
  have hmark := isExponentMark_mantissa hwhole hfraction
  have hmantissa := mantissaOfChars?_literal hwhole hfraction hne
  rw [withoutSeparators_append, withoutSeparators_append, ← List.append_assoc]
  cases hexponent with
  | empty =>
    have hnone : withoutSeparators [] = [] := rfl
    rw [hnone, List.append_nil, Decimal.ofChars?, splitAtFirst_of_all hmark]
    simp only [hmantissa, decimalOf, Int.zero_sub]
  | @marked mark sign text unit xs hexponentMark hsign hds =>
    have hne : mark ≠ '_' := by
      rintro rfl
      exact absurd hexponentMark (by decide)
    have hclean : withoutSeparators (mark :: (sign ++ text)) =
        mark :: (sign ++ withoutSeparators text) := by
      rw [withoutSeparators_cons hne, withoutSeparators_append,
        withoutSeparators_of_not_mem (separator_notMem_sign hsign)]
    have hx := Decimal.exponentOfChars?_of_sign hsign hds.haveValues hds.ne_nil
    rw [hclean, Decimal.ofChars?, splitAtFirst_append hmark hexponentMark]
    simp only [hmantissa, hx, decimalOf, Int.sub_eq_add_neg, Int.add_comm _ (-_)]
    rfl

/-- An exponent with a separator in it makes no literal. -/
theorem ofChars?_of_separator {mantissa : List Char}
    (hmantissa : ∀ c ∈ mantissa, isExponentMark c = false) {mark : Char}
    (hmark : isExponentMark mark = true) {cs : List Char} (h : '_' ∈ cs) :
    Decimal.ofChars? (mantissa ++ mark :: cs) = none := by
  rw [Decimal.ofChars?, splitAtFirst_append hmantissa hmark]
  simp only [Decimal.exponentOfChars?_of_separator h]
  cases Decimal.mantissaOfChars? mantissa <;> rfl

end

end Ecma
