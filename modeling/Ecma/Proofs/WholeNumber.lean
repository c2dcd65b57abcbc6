import Ecma.Number.Rounding
import Mathlib.Algebra.Group.Nat.Defs

/-!
# Natural numbers as doubles

A natural number below `2 ^ 53` is a double: it is not rounded (`Double.ratioMagnitude_natural`),
and its whole part is the number again (`Double.wholePart_ofNat`). The counts of elements are such
numbers.
-/

namespace Ecma

theorem roundDiv_one (n : Nat) : roundDiv n 1 = n := by
  simp [roundDiv, Nat.mod_one]

namespace Double

variable {n : Nat}

theorem ratioLog_one (hn : n ≠ 0) : ratioLog n 1 = n.log2 := by
  have hlow : 2 ^ n.log2 ≤ n := Nat.log2_self_le hn
  have hone : Nat.log2 1 = 0 := by decide
  unfold ratioLog
  have hzero : (-(n.log2 : Int)).toNat = 0 := by omega
  simp only [hone, Int.natCast_zero, Int.sub_zero, Int.toNat_natCast, hzero]
  rw [if_pos]
  simpa [pow2] using hlow

/-- The significand of a natural number with all its 53 bits. -/
def filled (n : Nat) : Nat := n * 2 ^ (52 - n.log2)

theorem log2_le (h : n < 2 ^ 53) : n.log2 ≤ 52 := by
  by_cases hn : n = 0
  · subst hn
    decide
  · have hlog := (Nat.log2_lt hn).2 h
    omega

theorem filled_bounds (hn : n ≠ 0) (h : n < 2 ^ 53) :
    fractionLimit ≤ filled n ∧ filled n < 2 * fractionLimit := by
  have hlog := log2_le h
  have hlow : 2 ^ n.log2 ≤ n := Nat.log2_self_le hn
  have hhigh : n < 2 ^ (n.log2 + 1) := Nat.lt_log2_self
  have hsum : n.log2 + (52 - n.log2) = 52 := by omega
  constructor
  · calc fractionLimit = 2 ^ n.log2 * 2 ^ (52 - n.log2) := by rw [← Nat.pow_add, hsum]; rfl
      _ ≤ filled n := Nat.mul_le_mul_right _ hlow
  · calc filled n < 2 ^ (n.log2 + 1) * 2 ^ (52 - n.log2) :=
        Nat.mul_lt_mul_of_pos_right hhigh (Nat.two_pow_pos _)
      _ = 2 * 2 ^ (n.log2 + (52 - n.log2)) := by rw [Nat.pow_succ', Nat.mul_assoc, ← Nat.pow_add]
      _ = 2 * fractionLimit := by rw [hsum]; rfl

/-- A natural number below `2 ^ 53` is not rounded. -/
theorem ratioMagnitude_natural (hn : n ≠ 0) (h : n < 2 ^ 53) :
    ratioMagnitude n 1 = (n.log2 + 1022) * fractionLimit + filled n := by
  have hlog := log2_le h
  have hunit : max (ratioLog n 1 - 52) (-1074) = (n.log2 : Int) - 52 := by
    rw [ratioLog_one hn]
    omega
  have hdown : (-((n.log2 : Int) - 52)).toNat = 52 - n.log2 := by omega
  have hup : ((n.log2 : Int) - 52).toNat = 0 := by omega
  have hfield : ((n.log2 : Int) - 52 + 1074).toNat = n.log2 + 1022 := by omega
  have hfinite : (n.log2 + 1022) * fractionLimit + filled n ≤ infinityMagnitude := by
    have hhigh := (filled_bounds hn h).2
    unfold fractionLimit infinityMagnitude at *
    omega
  rw [ratioMagnitude, if_neg hn]
  simp only [hunit, hdown, hup, hfield, pow2_zero, Nat.mul_one, roundDiv_one]
  exact Nat.min_eq_right hfinite

theorem isNegative_ofMagnitude {m : Nat} (h : m < signWeight) :
    (ofMagnitude false m).isNegative = false := by
  unfold signWeight at h
  simp only [isNegative, ofMagnitude, signWeight, UInt64.toNat_ofNat', decide_eq_false_iff_not,
    Bool.false_eq_true, if_false]
  omega

theorem ratioMagnitude_lt (num den : Nat) : ratioMagnitude num den < signWeight :=
  Nat.lt_of_le_of_lt (ratioMagnitude_le num den) (by decide)

theorem isNegative_ofNat (n : Nat) : (ofNat n).isNegative = false :=
  isNegative_ofMagnitude (ratioMagnitude_lt n 1)

theorem magnitude_ofNat (hn : n ≠ 0) (h : n < 2 ^ 53) :
    (ofNat n).magnitude = (n.log2 + 1022) * fractionLimit + filled n := by
  rw [ofNat, ofRatio, magnitude_ofMagnitude false (ratioMagnitude_lt n 1),
    ratioMagnitude_natural hn h]

/-- A natural number below `2 ^ 53` has all its bits in the significand. -/
theorem significand_ofNat (hn : n ≠ 0) (h : n < 2 ^ 53) :
    (ofNat n).significand = filled n ∧ (ofNat n).exponent = (n.log2 : Int) - 52 := by
  obtain ⟨hlow, hhigh⟩ := filled_bounds hn h
  have hmagnitude := magnitude_ofNat hn h
  have hfield : (ofNat n).exponentField = n.log2 + 1023 := by
    unfold exponentField
    unfold fractionLimit at *
    omega
  constructor
  · rw [significand, hfield, if_neg (Nat.succ_ne_zero _)]
    unfold fractionLimit at *
    omega
  · rw [exponent, hfield]
    omega

theorem isInfinite_ofNat (h : n < 2 ^ 53) : (ofNat n).isInfinite = false := by
  by_cases hn : n = 0
  · subst hn
    decide
  · have hlog := log2_le h
    have hhigh := (filled_bounds hn h).2
    rw [isInfinite, beq_eq_false_iff_ne, magnitude_ofNat hn h]
    unfold fractionLimit infinityMagnitude at *
    omega

/-- The whole part of a natural number below `2 ^ 53` is that number. -/
theorem wholePart_ofNat (h : n < 2 ^ 53) : (ofNat n).wholePart = n := by
  by_cases hn : n = 0
  · subst hn
    have hzero : (ofNat 0).significand = 0 := by decide
    simp [wholePart, numerator, hzero, isInfinite_ofNat h]
  have hlog := log2_le h
  obtain ⟨hsignificand, hexponent⟩ := significand_ofNat hn h
  have hdown : (-((n.log2 : Int) - 52)).toNat = 52 - n.log2 := by omega
  have hup : ((n.log2 : Int) - 52).toNat = 0 := by omega
  have hquotient : (ofNat n).numerator / (ofNat n).denominator = n := by
    rw [numerator, denominator, hsignificand, hexponent, hdown, hup, pow2_zero, Nat.mul_one, filled]
    exact Nat.mul_div_cancel n (Nat.two_pow_pos _)
  have hnan : (ofNat n).isNaN = false := isNaN_ofRatio n 1
  have hmax : n ≤ maxCount := by
    unfold maxCount
    omega
  rw [wholePart, isNegative_ofNat, hnan, isInfinite_ofNat h, hquotient]
  exact Nat.min_eq_left hmax

end Double

end Ecma
