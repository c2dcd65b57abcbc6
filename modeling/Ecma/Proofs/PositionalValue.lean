import Ecma.Number.Positional
import Ecma.Proofs.Index
import Ecma.Proofs.LiteralText
import Mathlib.Algebra.Field.Rat
import Mathlib.Tactic.FieldSimp
import Mathlib.Tactic.Ring

/-!
# Positional notation keeps the value

A formatter gives a finite number as digits with at most one point between them, and perhaps with an
exponent (`Formatted`). Taking the exponent out moves the point by it, and what is left denotes the
same rational number (`positional_withoutExponent`). The text that a number is converted to is
therefore a literal of exactly the value that the formatter gave (`number_text_exact`).
-/

namespace Ecma

/-! ## Values -/

/-- The number that a decimal stands for. -/
def Decimal.value (d : Decimal) : ℚ := d.coefficient * 10 ^ d.exponent

/-- Digits with at most one point between them, and the number that they denote. -/
inductive Positional : List Char → ℚ → Prop where
  | whole {cs : List Char} {ds : List Nat} (h : HaveValues 10 cs ds) (hne : ds ≠ []) :
      Positional cs (ofDigits 10 ds)
  | point {cs cs' : List Char} {ds fs : List Nat} (h : HaveValues 10 cs ds)
      (h' : HaveValues 10 cs' fs) (hne : ds ≠ []) (hne' : fs ≠ []) :
      Positional (cs ++ '.' :: cs') (ofDigits 10 ds + ofDigits 10 fs / 10 ^ fs.length)

/-- The same behind an optional minus sign. -/
inductive SignedPositional : List Char → ℚ → Prop where
  | plain {cs : List Char} {q : ℚ} (h : Positional cs q) : SignedPositional cs q
  | minus {cs : List Char} {q : ℚ} (h : Positional cs q) : SignedPositional ('-' :: cs) (-q)

/-- One more than the largest exponent that a formatter gives. -/
def formattedLimit : Nat := 1000

/-- What a formatter may give for a finite number, and the number that it denotes: digits with at
most one point between them, behind an optional minus sign, and an optional exponent. -/
inductive Formatted : List Char → ℚ → Prop where
  | plain {cs : List Char} {q : ℚ} (h : SignedPositional cs q) : Formatted cs q
  | scaled {cs sign digits : List Char} {q : ℚ} {unit : Int} {ds : List Nat}
      (h : SignedPositional cs q) (hsign : (sign, unit) ∈ exponentSigns)
      (hdigits : HaveValues 10 digits ds) (hne : ds ≠ [])
      (hlt : ofDigits 10 ds < formattedLimit) :
      Formatted (cs ++ 'e' :: (sign ++ digits)) (q * 10 ^ (unit * ofDigits 10 ds))

/-! ## Digits -/

theorem ofDigits_append (radix : Nat) (ds es : List Nat) :
    ofDigits radix (ds ++ es) = ofDigits radix ds * radix ^ es.length + ofDigits radix es := by
  induction es using List.reverseRecOn with
  | nil => simp [ofDigits, ofDigitsFrom]
  | append_singleton es d ih =>
    rw [← List.append_assoc, ofDigits_append_single, ofDigits_append_single, ih,
      List.length_append, List.length_singleton]
    ring

theorem ofDigits_zeros (radix n : Nat) : ofDigits radix (List.replicate n 0) = 0 := by
  induction n with
  | zero => rfl
  | succ n ih => rw [List.replicate_succ', ofDigits_append_single, ih, Nat.zero_mul]

theorem haveValues_zeros (n : Nat) :
    HaveValues 10 (List.replicate n '0') (List.replicate n 0) := by
  induction n with
  | zero => exact .nil
  | succ n ih => exact .cons rfl ih

theorem zpow_neg_nat (n : Nat) : (10 : ℚ) ^ (-(n : Int)) = 1 / 10 ^ n := by
  rw [zpow_neg, zpow_natCast, one_div]

/-- Digits around a point stand for the number of all of them, divided once for each digit behind
the point. -/
theorem value_of_point (ds fs : List Nat) :
    (ofDigits 10 ds + ofDigits 10 fs / 10 ^ fs.length : ℚ) =
      ofDigits 10 (ds ++ fs) * 10 ^ (-(fs.length : Int)) := by
  rw [ofDigits_append, zpow_neg_nat]
  push_cast
  field_simp

namespace HaveValues

variable {cs : List Char} {ds : List Nat}

theorem exists_cons (h : HaveValues 10 cs ds) (hne : ds ≠ []) :
    ∃ c rest, cs = c :: rest ∧ isDecimalDigit c = true := by
  cases h with
  | nil => exact absurd rfl hne
  | cons hd _ => exact ⟨_, _, rfl, isDigitOf_of_digitValue? hd⟩

theorem ne_point (h : HaveValues 10 cs ds) : ∀ c ∈ cs, (c != '.') = true :=
  fun _ hc => bne_iff_ne.2 (h.areDigits.ne hc (by decide))

end HaveValues

namespace Positional

variable {cs : List Char} {q : ℚ}

theorem cast {q' : ℚ} (h : Positional cs q) (hq : q = q') : Positional cs q' := hq ▸ h

/-- A point may be put between digits; there are no others. -/
theorem digit_or_point (h : Positional cs q) : ∀ c ∈ cs, isDecimalDigit c = true ∨ c = '.' := by
  cases h with
  | whole h _ => exact fun c hc => Or.inl (h.areDigits c hc)
  | point h h' _ _ =>
    rw [List.forall_mem_append, List.forall_mem_cons]
    exact ⟨fun c hc => Or.inl (h.areDigits c hc), Or.inr rfl,
      fun c hc => Or.inl (h'.areDigits c hc)⟩

theorem exists_cons (h : Positional cs q) :
    ∃ c rest, cs = c :: rest ∧ isDecimalDigit c = true := by
  cases h with
  | whole h hne => exact h.exists_cons hne
  | point h h' hne _ =>
    obtain ⟨c, rest, rfl, hc⟩ := h.exists_cons hne
    exact ⟨c, rest ++ '.' :: _, rfl, hc⟩

end Positional

/-! ## Moving the point -/

section

variable {cs : List Char} {ds : List Nat}

/-- The point before all digits. -/
theorem positional_leading (h : HaveValues 10 cs ds) (hne : ds ≠ []) (n : Nat) :
    Positional ('0' :: '.' :: List.replicate n '0' ++ cs)
      (ofDigits 10 ds * 10 ^ (-((n + ds.length : Nat) : Int))) := by
  have hzero : HaveValues 10 ['0'] [0] := haveValues_zeros 1
  have hdigits := (haveValues_zeros n).append h
  have hvalue : ofDigits 10 ([0] ++ (List.replicate n 0 ++ ds)) = ofDigits 10 ds := by
    rw [← List.append_assoc, ofDigits_append, ← List.replicate_one, List.replicate_append_replicate,
      ofDigits_zeros, Nat.zero_mul, Nat.zero_add]
  refine (Positional.point hzero hdigits (by simp) (by simp [hne])).cast ?_
  rw [value_of_point, hvalue, List.length_append, List.length_replicate]

/-- The point behind all digits. -/
theorem positional_trailing (h : HaveValues 10 cs ds) (hne : ds ≠ []) (n : Nat) :
    Positional (cs ++ List.replicate n '0') (ofDigits 10 ds * 10 ^ (n : Int)) := by
  refine (Positional.whole (h.append (haveValues_zeros n)) (by simp [hne])).cast ?_
  rw [ofDigits_append, ofDigits_zeros, List.length_replicate, zpow_natCast, Nat.add_zero]
  push_cast
  rfl

/-- The point between two digits. -/
theorem positional_inner (h : HaveValues 10 cs ds) {n : Nat} (hpos : 0 < n) (hlt : n < ds.length) :
    Positional (cs.take n ++ '.' :: cs.drop n)
      (ofDigits 10 ds * 10 ^ (-((ds.length - n : Nat) : Int))) := by
  have hfront := List.forall₂_take n h
  have hback := List.forall₂_drop n h
  have hfrontNe : ds.take n ≠ [] := by
    rw [← List.length_pos_iff, List.length_take]
    omega
  have hbackNe : ds.drop n ≠ [] := by
    rw [← List.length_pos_iff, List.length_drop]
    omega
  refine (Positional.point hfront hback hfrontNe hbackNe).cast ?_
  rw [value_of_point, List.take_append_drop, List.length_drop]

/-- Digits with a point among or around them denote the number of the digits, scaled by the place of
the point. -/
theorem positional_withPoint (h : HaveValues 10 cs ds) (hne : ds ≠ []) (point : Int) :
    Positional (withPoint cs point) (ofDigits 10 ds * 10 ^ (point - cs.length)) := by
  have hlength : cs.length = ds.length := h.length_eq
  unfold withPoint
  by_cases hfirst : point ≤ 0
  · have hplaces : point - cs.length = -(((-point).toNat + ds.length : Nat) : Int) := by omega
    rw [if_pos hfirst, hplaces]
    exact positional_leading h hne _
  by_cases hlast : (cs.length : Int) ≤ point
  · have hplaces : point - cs.length = ((point - cs.length).toNat : Int) := by omega
    rw [if_neg hfirst, if_pos hlast, hplaces]
    exact positional_trailing h hne _
  · have hplaces : point - cs.length = -((ds.length - point.toNat : Nat) : Int) := by omega
    rw [if_neg hfirst, if_neg hlast, hplaces]
    exact positional_inner h (by omega) (by omega)

end

namespace Positional

variable {cs : List Char} {q : ℚ}

/-- The digits of a positional text, and the place of its point. -/
theorem digits (h : Positional cs q) :
    ∃ ds, HaveValues 10 (cs.filter (· != '.')) ds ∧ ds ≠ [] ∧
      q = ofDigits 10 ds *
        10 ^ (((cs.takeWhile (· != '.')).length : Int) - (cs.filter (· != '.')).length) := by
  cases h with
  | whole h hne =>
    have hall := h.ne_point
    refine ⟨_, by rwa [List.filter_eq_self.2 hall], hne, ?_⟩
    rw [List.filter_eq_self.2 hall, List.takeWhile_eq_self_iff.2 hall, sub_self, zpow_zero, mul_one]
  | @point front back ds fs h h' hne hne' =>
    have hfilter : (front ++ '.' :: back).filter (· != '.') = front ++ back := by
      rw [List.filter_append, List.filter_cons_of_neg (by decide),
        List.filter_eq_self.2 h.ne_point, List.filter_eq_self.2 h'.ne_point]
    have htake : (front ++ '.' :: back).takeWhile (· != '.') = front := by
      rw [List.takeWhile_append_of_pos h.ne_point, List.takeWhile_cons_of_neg (by decide),
        List.append_nil]
    have hplaces : (front.length : Int) - (front ++ back).length = -(fs.length : Int) := by
      rw [List.length_append, h'.length_eq]
      omega
    rw [hfilter, htake, hplaces]
    exact ⟨ds ++ fs, h.append h', List.append_ne_nil_of_left_ne_nil hne _, value_of_point ds fs⟩

/-- Moving the point scales the number. -/
theorem moved (h : Positional cs q) (shift : Int) :
    Positional
      (withPoint (cs.filter (· != '.')) ((cs.takeWhile (· != '.')).length + shift))
      (q * 10 ^ shift) := by
  obtain ⟨ds, hvalues, hne, rfl⟩ := h.digits
  refine (positional_withPoint hvalues hne _).cast ?_
  rw [mul_assoc, ← zpow_add₀ (by norm_num)]
  congr 2
  ring

end Positional

namespace SignedPositional

variable {cs : List Char} {q : ℚ}

theorem ne_mark (h : SignedPositional cs q) : ∀ c ∈ cs, (c == 'e') = false := by
  have hplain : ∀ {cs : List Char} {q : ℚ}, Positional cs q → ∀ c ∈ cs, (c == 'e') = false := by
    intro cs q h c hc
    rw [beq_eq_false_iff_ne]
    rintro rfl
    exact absurd (h.digit_or_point 'e' hc) (by decide)
  cases h with
  | plain h => exact hplain h
  | minus h => exact List.forall_mem_cons.2 ⟨by decide, hplain h⟩

/-- The exponent behind the text of a number moves its point, and keeps its sign. -/
theorem moved (h : SignedPositional cs q) (shift : Int) :
    SignedPositional
      ((splitSign cs).1 ++ withPoint ((splitSign cs).2.filter (· != '.'))
        (((splitSign cs).2.takeWhile (· != '.')).length + shift))
      (q * 10 ^ shift) := by
  cases h with
  | plain h =>
    obtain ⟨c, rest, rfl, hc⟩ := h.exists_cons
    have hsplit : splitSign (c :: rest) = ([], c :: rest) := by
      refine splitSign.eq_2 _ fun cs heq => ?_
      obtain ⟨rfl, -⟩ := List.cons.inj heq
      exact absurd hc (by decide)
    rw [hsplit]
    exact .plain (h.moved shift)
  | minus h =>
    rw [neg_mul]
    exact .minus (h.moved shift)

end SignedPositional

/-- Without its exponent, the text denotes the same number. -/
theorem positional_withoutExponent {text : List Char} {q : ℚ} (h : Formatted text q) :
    SignedPositional (withoutExponent text) q := by
  cases h with
  | plain h =>
    have hsplit := splitAtFirst_of_all h.ne_mark
    rw [withoutExponent, hsplit]
    exact h
  | @scaled cs sign digits q unit ds h hsign hdigits hne hlt =>
    have hsplit := splitAtFirst_append h.ne_mark (beq_self_eq_true 'e') (sign ++ digits)
    have hunit : unit = 1 ∨ unit = -1 := by
      simp only [exponentSigns, List.mem_cons, Prod.mk.injEq, List.not_mem_nil, or_false] at hsign
      obtain ⟨-, rfl⟩ | ⟨-, rfl⟩ | ⟨-, rfl⟩ := hsign
      · exact Or.inl rfl
      · exact Or.inl rfl
      · exact Or.inr rfl
    have hshift : shiftOfChars? (sign ++ digits) = some (unit * ofDigits 10 ds) := by
      have hfits : -shiftLimit ≤ unit * ofDigits 10 ds ∧ unit * ofDigits 10 ds < shiftLimit := by
        unfold shiftLimit
        unfold formattedLimit at hlt
        rcases hunit with rfl | rfl <;> omega
      rw [shiftOfChars?, Decimal.exponentOfChars?_of_sign hsign hdigits hne]
      simp [Option.filter, hfits]
    rw [withoutExponent, hsplit]
    simp only [Option.bind_some, hshift]
    exact h.moved _

/-! ## Reading the text -/

/-- A positional text is a decimal literal of the number that it denotes. -/
theorem Positional.plainDecimal {cs : List Char} {q : ℚ} (h : Positional cs q) :
    ∃ d, PlainDecimal cs d ∧ d.value = q := by
  cases h with
  | @whole _ ds h hne =>
    have hdecimal := PlainDecimal.mk h .empty .empty (by simpa using hne) List.not_mem_nil
    rw [List.append_nil, List.append_nil] at hdecimal
    refine ⟨_, hdecimal, ?_⟩
    simp [Decimal.value, decimalOf]
  | @point front back ds fs h h' hne hne' =>
    have hplain : '_' ∉ '.' :: back ++ [] := by
      rw [List.append_nil]
      exact List.not_mem_cons_of_ne_of_not_mem (by decide) h'.separator_notMem
    have hdecimal := PlainDecimal.mk h (.point (.digits (h'.digits hne'))) .empty
      (List.append_ne_nil_of_left_ne_nil hne _) hplain
    rw [List.append_nil] at hdecimal
    refine ⟨_, hdecimal, ?_⟩
    rw [value_of_point, Decimal.value, decimalOf, Int.zero_sub]

/-- The number behind a sign. -/
def signedValue (negative : Bool) (q : ℚ) : ℚ := if negative then -q else q

theorem signedValue_mul (negative : Bool) (q r : ℚ) :
    signedValue negative q * r = signedValue negative (q * r) := by
  cases negative with
  | false => rfl
  | true => exact neg_mul q r

/-- A positional text is a literal, and is read as the double nearest to the number that it
denotes. -/
theorem SignedPositional.literal {cs : List Char} {q : ℚ} (h : SignedPositional cs q) :
    ∃ sign negative body d, (sign, negative) ∈ numberSigns ∧ cs = sign ++ body ∧
      PlainDecimal body d ∧ signedValue negative d.value = q := by
  cases h with
  | plain h =>
    obtain ⟨d, hdecimal, hvalue⟩ := h.plainDecimal
    exact ⟨[], false, cs, d, by decide, rfl, hdecimal, hvalue⟩
  | @minus cs q h =>
    obtain ⟨d, hdecimal, hvalue⟩ := h.plainDecimal
    exact ⟨['-'], true, cs, d, by decide, rfl, hdecimal, congrArg Neg.neg hvalue⟩

namespace Double

variable {format : Double → List Char} {x : Double}

theorem charsBy_of_finite (hfinite : x.isFinite = true) (hzero : x.isZero = false) :
    x.charsBy format = withoutExponent (format x) := by
  have hlt : x.magnitude < infinityMagnitude := by simpa [isFinite] using hfinite
  have hnan : x.isNaN = false := by
    rw [isNaN, decide_eq_false_iff_not]
    omega
  have hinfinite : x.isInfinite = false := by
    rw [isInfinite, beq_eq_false_iff_ne]
    omega
  simp only [charsBy, hnan, hzero, hinfinite, Bool.false_eq_true, if_false]

/-- Whatever is not NaN is written as a literal. -/
theorem charsBy_literal (hx : x.isNaN = false)
    (hformat : x.isFinite = true → x.isZero = false → ∃ q, Formatted (format x) q) :
    ∃ y, NumericLiteral (x.charsBy format) y := by
  have hliteral : ∀ {cs : List Char} {q : ℚ}, SignedPositional cs q → ∃ y, NumericLiteral cs y := by
    intro cs q h
    obtain ⟨sign, negative, body, d, hsign, rfl, hbody, -⟩ := h.literal
    exact ⟨_, .decimal hsign hbody⟩
  by_cases hzero : x.isZero = true
  · have hchars : x.charsBy format = ['0'] := by
      simp only [charsBy, hx, hzero, Bool.false_eq_true, if_false, if_true]
    rw [hchars]
    exact hliteral (.plain (.whole (haveValues_zeros 1) (by simp)))
  rw [Bool.not_eq_true] at hzero
  by_cases hinfinite : x.isInfinite = true
  · have hchars : x.charsBy format =
        (if x.isNegative then "-Infinity" else "Infinity").toList := by
      simp only [charsBy, hx, hzero, hinfinite, Bool.false_eq_true, if_false, if_true]
    rw [hchars]
    cases x.isNegative with
    | false => exact ⟨_, @NumericLiteral.infinity [] false (by decide)⟩
    | true => exact ⟨_, @NumericLiteral.infinity ['-'] true (by decide)⟩
  · have hfinite : x.isFinite = true := by
      simp only [isNaN, isInfinite, decide_eq_false_iff_not, beq_iff_eq] at hx hinfinite
      rw [isFinite, decide_eq_true_eq]
      omega
    obtain ⟨q, hq⟩ := hformat hfinite hzero
    rw [charsBy_of_finite hfinite hzero]
    exact hliteral (positional_withoutExponent hq)

end Double

/-- Whatever the formatter is, if what it gives for a finite number other than zero has the form
that it promises, then no number but NaN is converted to a text and back to NaN. The text of a
finite number other than zero is positional and denotes exactly the number that the formatter gave;
behind its sign it is read as a decimal of exactly that number, to the nearest double. -/
theorem number_text_exact {format : Double → List Char} {x : Double} (hx : x.isNaN = false)
    (hformat : x.isFinite = true → x.isZero = false → ∃ q, Formatted (format x) q) :
    (numberOfText (.ofChars (x.charsBy format))).isNaN = false ∧
      (x.isFinite = true → x.isZero = false → ∀ q, Formatted (format x) q →
        SignedPositional (x.charsBy format) q ∧
          ∃ sign negative body d, (sign, negative) ∈ numberSigns ∧
            x.charsBy format = sign ++ body ∧ Decimal.ofChars? body = some d ∧
            signedValue negative d.value = q ∧
            numberOfText (.ofChars (x.charsBy format)) = d.toDouble.withSign negative) := by
  constructor
  · obtain ⟨y, hliteral⟩ := Double.charsBy_literal hx hformat
    rw [hliteral.numberOfText_eq]
    exact hliteral.isNaN_eq
  · intro hfinite hzero q hq
    have hpositional := positional_withoutExponent hq
    rw [Double.charsBy_of_finite hfinite hzero]
    obtain ⟨sign, negative, body, d, hsign, hcs, hbody, hvalue⟩ := hpositional.literal
    refine ⟨hpositional, sign, negative, body, d, hsign, hcs, Decimal.ofChars?_eq_some_iff.2 hbody,
      hvalue, ?_⟩
    rw [hcs]
    exact (NumericLiteral.decimal hsign hbody).numberOfText_eq

/-! ## The formatter -/

theorem haveValues_numeral (n : Nat) : HaveValues 10 (numeral n) (digits n) := by
  rw [numeral, HaveValues, List.forall₂_map_left_iff, List.forall₂_same]
  exact fun d hd => digitValue?_eq_some_iff.2 ⟨lt_ten_of_mem_digits hd, rfl⟩

theorem Positional.withSign {cs : List Char} {q : ℚ} (h : Positional cs q) (negative : Bool) :
    SignedPositional ((if negative then ['-'] else []) ++ cs) (signedValue negative q) := by
  cases negative with
  | false => exact .plain h
  | true => exact .minus h

/-- The digits of a decimal, with or without an exponent behind them, denote the decimal. -/
theorem Decimal.formatted_written (d : Decimal) (negative : Bool)
    (hlt : ((numeral d.coefficient).length + d.exponent - 1).natAbs < formattedLimit) :
    Formatted ((if negative then ['-'] else []) ++ d.written) (signedValue negative d.value) := by
  have hpositional : ∀ point : Int, Positional (withPoint (numeral d.coefficient) point)
      (d.coefficient * 10 ^ (point - (numeral d.coefficient).length)) := by
    intro point
    have hwith := positional_withPoint (haveValues_numeral d.coefficient)
      (digits_ne_nil d.coefficient) point
    rwa [ofDigits_digits] at hwith
  unfold written
  dsimp only
  generalize hlength : ((numeral d.coefficient).length : Int) = length at hlt hpositional ⊢
  by_cases hnear : -maxLeadingPlaces < length + d.exponent ∧ length + d.exponent ≤ maxWholeDigits
  · rw [if_pos hnear]
    refine .plain (((hpositional _).cast ?_).withSign negative)
    rw [value, add_sub_cancel_left]
  · rw [if_neg hnear, ← List.append_assoc]
    generalize hshift : length + d.exponent - 1 = shift at hlt ⊢
    obtain ⟨unit, hmark, hunit⟩ : ∃ unit : Int,
        ([if shift < 0 then '-' else '+'], unit) ∈ exponentSigns ∧ unit * shift.natAbs = shift := by
      by_cases hneg : shift < 0
      · exact ⟨-1, by rw [if_pos hneg]; decide, by omega⟩
      · exact ⟨1, by rw [if_neg hneg]; decide, by omega⟩
    have hscaled := Formatted.scaled ((hpositional 1).withSign negative) hmark
      (haveValues_numeral shift.natAbs) (digits_ne_nil _) (by rwa [ofDigits_digits])
    have hplaces : 1 - length + shift = d.exponent := by omega
    rw [ofDigits_digits, hunit, signedValue_mul, mul_assoc, ← zpow_add₀ (by norm_num), hplaces]
      at hscaled
    exact hscaled

/-- The text of a finite number denotes the shortest decimal that reads back. -/
theorem Double.formatted_written {x : Double}
    (hlt : ((numeral x.shortest.coefficient).length + x.shortest.exponent - 1).natAbs <
      formattedLimit) :
    Formatted x.written (signedValue x.isNegative x.shortest.value) :=
  x.shortest.formatted_written x.isNegative hlt

/-- A negative number of 26 digits, of which five are written before the exponent. -/
theorem number_text_exact_moved :
    let x : Double := ⟨0xc5246c4f94f99599⟩
    x.written = "-1.2345e+25".toList ∧ x.chars = "-12345000000000000000000000".toList ∧
      SignedPositional x.chars (-12345 * 10 ^ 21) ∧
      (numberOfText (.ofChars x.chars)).isNaN = false := by
  intro x
  have hshortest : x.shortest = ⟨12345, 21⟩ := by decide +kernel
  have hnegative : x.isNegative = true := by decide +kernel
  have hformatted : Formatted x.written (-12345 * 10 ^ 21) := by
    have hwritten := Double.formatted_written (x := x) (by rw [hshortest]; decide +kernel)
    have hvalue : signedValue x.isNegative x.shortest.value = -12345 * 10 ^ 21 := by
      rw [hshortest, hnegative, signedValue, if_pos rfl, Decimal.value]
      norm_num
    rwa [hvalue] at hwritten
  obtain ⟨hback, hexact⟩ :=
    @number_text_exact Double.written x (by decide) fun _ _ => ⟨_, hformatted⟩
  obtain ⟨hpositional, -⟩ := hexact (by decide) (by decide) _ hformatted
  exact ⟨by decide +kernel, by decide +kernel, hpositional, hback⟩

end Ecma
