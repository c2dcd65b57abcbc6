import Ecma.Proofs.CodePoint
import Ecma.Text.Index
import Mathlib.Algebra.Group.Nat.Defs
import Mathlib.Data.List.Induction

/-!
# Array indices are canonical

A text is an array index exactly if it is the numeral of a number below the limit, so an index and
its text determine each other (`Text.arrayIndex?_eq_some_iff`, and `Text.index_keys_canonical` in
terms of printed numbers). The one fact behind it is that digits without a leading zero are the
digits of the number that they stand for. Reading them digit by digit loses only numbers of more
than 32 bits (`foldlM_appendDigit?`).
-/

namespace Ecma

/-! ## Digits -/

/-- The digits start with zero only if there is no other. -/
def NoLeadingZero (ds : List Nat) : Prop := ds.head? = some 0 → ds = [0]

theorem head?_append_of_ne_nil {ds es : List Nat} (h : ds ≠ []) : (ds ++ es).head? = ds.head? := by
  cases ds with
  | nil => exact absurd rfl h
  | cons d ds => rfl

theorem noLeadingZero_digits (n : Nat) : NoLeadingZero (digits n) := by
  fun_induction digits n with
  | case1 n h =>
    intro h0
    obtain rfl : n = 0 := Option.some.inj h0
    rfl
  | case2 n h ih =>
    intro h0
    rw [head?_append_of_ne_nil (digits_ne_nil _)] at h0
    have hzero : ofDigits 10 (digits (n / 10)) = 0 := by rw [ih h0]; rfl
    rw [ofDigits_digits] at hzero
    omega

/-- Digits without a leading zero are the digits of the number that they stand for. -/
theorem digits_ofDigits {ds : List Nat} (hne : ds ≠ []) (hten : ∀ d ∈ ds, d < 10)
    (hlead : NoLeadingZero ds) : digits (ofDigits 10 ds) = ds := by
  induction ds using List.reverseRecOn with
  | nil => exact absurd rfl hne
  | append_singleton ds d ih =>
    have hd : d < 10 := hten d (by simp)
    rw [ofDigits_append_single]
    by_cases hnil : ds = []
    · subst hnil
      rw [digits, if_pos (by simpa [ofDigits, ofDigitsFrom] using hd)]
      simp [ofDigits, ofDigitsFrom]
    · have hfirst : ds.head? ≠ some 0 := by
        intro h0
        have hall := hlead (by rw [head?_append_of_ne_nil hnil, h0])
        have hlen := congrArg List.length hall
        simp at hlen
        exact hnil hlen
      have hds : digits (ofDigits 10 ds) = ds :=
        ih hnil (fun e he => hten e (by simp [he])) fun h0 => absurd h0 hfirst
      -- a number whose digits do not start with zero is not zero
      have hpos : 0 < ofDigits 10 ds := by
        refine Nat.pos_of_ne_zero fun h0 => hfirst ?_
        rw [← hds, h0, digits, if_pos (by omega)]
        rfl
      rw [digits, if_neg (by omega)]
      have hdiv : (ofDigits 10 ds * 10 + d) / 10 = ofDigits 10 ds := by omega
      have hmod : (ofDigits 10 ds * 10 + d) % 10 = d := by omega
      rw [hdiv, hmod, hds]

/-! ## Characters -/

theorem toNat_digitChar {d : Nat} (hd : d < 10) : (digitChar d).toNat = 48 + d := by
  have hall : ∀ d < 10, (digitChar d).toNat = 48 + d := by decide
  exact hall d hd

theorem digitValue?_eq_some_iff {c : Char} {d : Nat} :
    digitValue? 10 c = some d ↔ d < 10 ∧ c = digitChar d := by
  constructor
  · intro h
    have hvalue : d < 10 ∧ c.toNat = 48 + d := by
      simp only [digitValue?, Option.ite_none_right_eq_some, Option.some.injEq] at h
      grind
    refine ⟨hvalue.1, Char.toNat_inj.1 ?_⟩
    rw [hvalue.2, toNat_digitChar hvalue.1]
  · rintro ⟨hd, rfl⟩
    have hall : ∀ d < 10, digitValue? 10 (digitChar d) = some d := by decide
    exact hall d hd

/-- Decimal digits are the characters of their values. -/
theorem map_digitChar_values {cs : List Char} (h : cs.all isDecimalDigit = true) :
    (cs.filterMap (digitValue? 10)).map digitChar = cs := by
  induction cs with
  | nil => rfl
  | cons c cs ih =>
    rw [List.all_cons, Bool.and_eq_true] at h
    obtain ⟨d, hd⟩ := Option.isSome_iff_exists.1 h.1
    rw [List.filterMap_cons_some hd, List.map_cons, ih h.2, (digitValue?_eq_some_iff.1 hd).2]

theorem lt_ten_of_mem_values {cs : List Char} {d : Nat}
    (h : d ∈ cs.filterMap (digitValue? 10)) : d < 10 := by
  obtain ⟨c, -, hd⟩ := List.mem_filterMap.1 h
  exact (digitValue?_eq_some_iff.1 hd).1

theorem values_numeral (n : Nat) : (numeral n).filterMap (digitValue? 10) = digits n := by
  have hall : ∀ d ∈ digits n, (digitValue? 10 ∘ digitChar) d = some d := fun d hd =>
    digitValue?_eq_some_iff.2 ⟨lt_ten_of_mem_digits hd, rfl⟩
  rw [numeral, List.filterMap_map, List.filterMap_congr hall, List.filterMap_some]

theorem numeral_all_isDecimalDigit (n : Nat) : (numeral n).all isDecimalDigit = true := by
  rw [numeral, List.all_map, List.all_eq_true]
  intro d hd
  have hvalue := digitValue?_eq_some_iff.2 ⟨lt_ten_of_mem_digits hd, rfl⟩
  exact Option.isSome_iff_exists.2 ⟨d, hvalue⟩

theorem numeral_injective {m n : Nat} (h : numeral m = numeral n) : m = n := by
  refine digits_injective ?_
  rw [← values_numeral, h, values_numeral]

/-- The characters of a number are the ones that it is printed with. -/
theorem numeral_eq_toDigits (n : Nat) : numeral n = Nat.toDigits 10 n := by
  have hchar : ∀ d < 10, digitChar d = Nat.digitChar d := by decide
  unfold numeral
  fun_induction digits n with
  | case1 n h => rw [Nat.toDigits_of_lt_base h, List.map_singleton, hchar n h]
  | case2 n h ih =>
    rw [List.map_append, ih, List.map_singleton, hchar _ (Nat.mod_lt n (by decide)),
      Nat.toDigits_of_base_le (by decide) (Nat.le_of_not_lt h)]

/-! ## Numbers of 32 bits -/

theorem le_ofDigitsFrom (start : Nat) (ds : List Nat) : start ≤ ofDigitsFrom 10 start ds := by
  induction ds generalizing start with
  | nil => exact Nat.le_refl start
  | cons d ds ih =>
    have hmore : start * 10 + d ≤ ofDigitsFrom 10 start (d :: ds) := ih (start * 10 + d)
    omega

/-- Reading digit by digit gives the number that they stand for, unless it has more than 32 bits. -/
theorem foldlM_appendDigit? {start : Nat} (hstart : start ≤ indexLimit) (ds : List Nat) :
    ds.foldlM appendDigit? start =
      if ofDigitsFrom 10 start ds ≤ indexLimit then some (ofDigitsFrom 10 start ds) else none := by
  induction ds generalizing start with
  | nil => exact (if_pos hstart).symm
  | cons d ds ih =>
    have hcons : ofDigitsFrom 10 start (d :: ds) = ofDigitsFrom 10 (start * 10 + d) ds := rfl
    rw [List.foldlM_cons, hcons, appendDigit?]
    by_cases hfits : start * 10 + d ≤ indexLimit
    · rw [if_pos hfits]
      exact ih hfits
    · have hmore := le_ofDigitsFrom (start * 10 + d) ds
      rw [if_neg hfits, if_neg (by omega)]
      rfl

/-- Characters without a leading zero are those of digits without one. -/
theorem leadingZero_iff {ds : List Nat} (hten : ∀ d ∈ ds, d < 10) :
    (1 < (ds.map digitChar).length ∧ (ds.map digitChar).head? = some '0') ↔ ¬NoLeadingZero ds := by
  cases ds with
  | nil => simp [NoLeadingZero]
  | cons d ds =>
    have hzero : digitChar d = '0' ↔ d = 0 := by
      have hall : ∀ d < 10, digitChar d = '0' ↔ d = 0 := by decide
      exact hall d (hten d List.mem_cons_self)
    simp only [NoLeadingZero, List.map_cons, List.length_cons, List.length_map, List.head?_cons,
      Option.some.injEq, hzero, List.cons.injEq]
    have hempty : ds.length = 0 ↔ ds = [] := List.length_eq_zero_iff
    grind

/-- Characters are an array index exactly if they are the numeral of a number below the limit. -/
theorem indexOfChars?_eq_some_iff {cs : List Char} {n : Nat} :
    indexOfChars? cs = some n ↔ n < indexLimit ∧ cs = numeral n := by
  have hread : ((cs.filterMap (digitValue? 10)).foldlM appendDigit? 0).filter (· ≠ indexLimit) =
      some n ↔ n < indexLimit ∧ numeralValue 10 cs = n := by
    have hvalue : ofDigitsFrom 10 0 (cs.filterMap (digitValue? 10)) = numeralValue 10 cs := rfl
    rw [foldlM_appendDigit? (Nat.zero_le _), hvalue, Option.filter_eq_some_iff]
    simp only [Option.ite_none_right_eq_some, Option.some.injEq, decide_eq_true_eq]
    omega
  unfold indexOfChars?
  constructor
  · intro h
    split at h
    · cases h
    rename_i hplain
    split at h
    · rename_i hdigits
      obtain ⟨hlt, hvalue⟩ := hread.1 h
      have hchars := map_digitChar_values hdigits
      have hten : ∀ d ∈ cs.filterMap (digitValue? 10), d < 10 := fun d => lt_ten_of_mem_values
      have hne : cs.filterMap (digitValue? 10) ≠ [] := by
        intro hnil
        rw [hnil] at hchars
        exact hplain (Or.inl hchars.symm)
      have hlead : NoLeadingZero (cs.filterMap (digitValue? 10)) := by
        by_contra hzero
        rw [← leadingZero_iff hten, hchars] at hzero
        exact hplain (Or.inr hzero)
      have hnumeral : digits n = cs.filterMap (digitValue? 10) := by
        rw [← hvalue, numeralValue, digits_ofDigits hne hten hlead]
      exact ⟨hlt, by rw [numeral, hnumeral, hchars]⟩
    · cases h
  · rintro ⟨hlt, rfl⟩
    have hvalue : numeralValue 10 (numeral n) = n := by
      rw [numeralValue, values_numeral, ofDigits_digits]
    have hplain : ¬(numeral n = [] ∨ (1 < (numeral n).length ∧ (numeral n).head? = some '0')) := by
      rw [numeral, leadingZero_iff fun d => lt_ten_of_mem_digits, List.map_eq_nil_iff]
      rintro (hnil | hzero)
      · exact digits_ne_nil n hnil
      · exact hzero (noLeadingZero_digits n)
    rw [if_neg hplain, if_pos (numeral_all_isDecimalDigit n)]
    exact hread.2 ⟨hlt, hvalue⟩

/-! ## Texts -/

/-- The code unit of a decimal digit. -/
def digitUnit (d : Nat) : UInt16 := UInt16.ofNat (48 + d)

theorem toNat_digitUnit {d : Nat} (hd : d < 10) : (digitUnit d).toNat = 48 + d := by
  rw [digitUnit, UInt16.toNat_ofNat_of_lt']
  simp only [UInt16.size]
  omega

namespace Text

theorem units_ofNat (n : Nat) : (ofNat n).units = (digits n).map digitUnit := rfl

/-- The text of a number is its numeral written down. -/
theorem ofNat_eq_ofChars (n : Nat) : ofNat n = ofChars (numeral n) := by
  have hunits : ∀ d ∈ digits n, unitsOfChar (digitChar d) = [digitUnit d] := by
    intro d hd
    have hten := lt_ten_of_mem_digits hd
    rw [unitsOfChar, toNat_digitChar hten, unitsOfCodePoint, if_pos (by omega)]
    rfl
  rw [ofChars, numeral, List.flatMap_map, List.flatMap_congr hunits, ← List.map_eq_flatMap]
  rfl

theorem chars_ofNat (n : Nat) : (ofNat n).chars = numeral n := by
  rw [ofNat_eq_ofChars, chars_ofChars]

theorem ofNat_injective : Function.Injective ofNat := by
  intro m n h
  refine numeral_injective ?_
  rw [← chars_ofNat, h, chars_ofNat]

/-- A text is an array index exactly if it is the numeral of a number below the limit. -/
theorem arrayIndex?_eq_some_iff {t : Text} {n : Nat} :
    t.arrayIndex? = some n ↔ n < indexLimit ∧ t = .ofNat n := by
  rw [arrayIndex?, Option.ite_none_right_eq_some, indexOfChars?_eq_some_iff]
  constructor
  · rintro ⟨hwell, hlt, hchars⟩
    refine ⟨hlt, ?_⟩
    rw [ofNat_eq_ofChars, ← hchars, ofChars_chars hwell]
  · rintro ⟨hlt, rfl⟩
    refine ⟨?_, hlt, chars_ofNat n⟩
    rw [ofNat_eq_ofChars]
    exact isWellFormed_ofChars _

theorem arrayIndex?_ofNat {n : Nat} (h : n < indexLimit) : (ofNat n).arrayIndex? = some n :=
  arrayIndex?_eq_some_iff.2 ⟨h, rfl⟩

theorem ofNat_eq_ofString (n : Nat) : ofNat n = ofString (toString n) := by
  rw [ofNat_eq_ofChars, ofString, Nat.toString_eq_repr, Nat.toList_repr, numeral_eq_toDigits]

/-- A text is an array index exactly if it is a number below the limit as it is printed. Printing
the indices among some keys gives back those keys that are indices, and two keys that are the same
index are the same key. -/
theorem index_keys_canonical :
    (∀ (t : Text) (n : Nat),
      t.arrayIndex? = some n ↔ n < 2 ^ 32 - 1 ∧ t = ofString (toString n)) ∧
    (∀ keys : List Text,
      (keys.filterMap arrayIndex?).map ofNat = keys.filter fun key => key.arrayIndex?.isSome) ∧
    ∀ (t u : Text) (n : Nat), t.arrayIndex? = some n → u.arrayIndex? = some n → t = u := by
  have hlimit : indexLimit = 2 ^ 32 - 1 := rfl
  refine ⟨fun t n => ?_, fun keys => ?_, fun t u n ht hu => ?_⟩
  · rw [arrayIndex?_eq_some_iff, hlimit, ofNat_eq_ofString]
  · induction keys with
    | nil => rfl
    | cons key keys ih =>
      cases hkey : key.arrayIndex? with
      | none =>
        rw [List.filterMap_cons_none hkey, List.filter_cons_of_neg (by simp [hkey]), ih]
      | some n =>
        have hprinted := (arrayIndex?_eq_some_iff.1 hkey).2
        rw [List.filterMap_cons_some hkey, List.filter_cons_of_pos (by simp [hkey]),
          List.map_cons, ih, ← hprinted]
  · rw [(arrayIndex?_eq_some_iff.1 ht).2, (arrayIndex?_eq_some_iff.1 hu).2]

example : ["4294967294", "4294967295", "07", "7\uFF10"].map (fun s => (ofString s).arrayIndex?) =
    [some 4294967294, none, none, none] := by
  decide +kernel

end Text

end Ecma
