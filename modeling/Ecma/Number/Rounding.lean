import Ecma.Number.Double

/-!
# Rounding to the nearest double

A non-negative ratio of natural numbers is rounded to the nearest double, ties to the even
significand. The result has a magnitude of at most that of infinity, so rounding never gives a NaN.
-/

namespace Ecma

/-- The integer nearest to a quotient; a half goes to the even neighbour. -/
def roundDiv (num den : Nat) : Nat :=
  let q := num / den
  let r := num % den
  if 2 * r < den then q
  else if den < 2 * r then q + 1
  else q + q % 2

namespace Double

/-- The exponent of the largest power of two that is at most a positive ratio. -/
def ratioLog (num den : Nat) : Int :=
  let e : Int := (num.log2 : Int) - (den.log2 : Int)
  if den * pow2 e.toNat ≤ num * pow2 (-e).toNat then e else e - 1

/-- The magnitude of the double nearest to a ratio. The significand is taken in units of the last
place that a double of that size has, and no unit is below `2 ^ -1074`. -/
def ratioMagnitude (num den : Nat) : Nat :=
  if num = 0 then 0
  else
    let unit : Int := max (ratioLog num den - 52) (-1074)
    let n := roundDiv (num * pow2 (-unit).toNat) (den * pow2 unit.toNat)
    min infinityMagnitude ((unit + 1074).toNat * fractionLimit + n)

/-- The double nearest to a ratio of natural numbers. -/
def ofRatio (num den : Nat) : Double := ofMagnitude false (ratioMagnitude num den)

/-- The double nearest to a natural number. -/
def ofNat (n : Nat) : Double := ofRatio n 1

/-- Appends a digit in a radix that is a power of two: `radix · x + digit`, rounded. What is no
natural number, an infinity in particular, stays as it is. -/
def pushDigit (radix : Nat) (x : Double) (digit : Nat) : Double :=
  match x.toNat? with
  | some n => ofNat (n * radix + digit)
  | none => x

/-- The number that digits in a power-of-two radix build up one after the other, each step rounded.
-/
def ofRadixDigits (radix : Nat) (ds : List Nat) : Double := ds.foldl (pushDigit radix) zero

/-! ## Rounding never gives a NaN -/

theorem ratioMagnitude_le (num den : Nat) : ratioMagnitude num den ≤ infinityMagnitude := by
  unfold ratioMagnitude
  split
  · exact Nat.zero_le _
  · exact Nat.min_le_left ..

theorem magnitude_ofMagnitude (negative : Bool) {m : Nat} (h : m < signWeight) :
    (ofMagnitude negative m).magnitude = m := by
  unfold signWeight at h
  cases negative <;>
    simp only [ofMagnitude, magnitude, signWeight, UInt64.toNat_ofNat', if_true, if_false,
      Bool.false_eq_true] <;>
    omega

theorem isNaN_ofMagnitude (negative : Bool) {m : Nat} (h : m ≤ infinityMagnitude) :
    (ofMagnitude negative m).isNaN = false := by
  have hm : m < signWeight := Nat.lt_of_le_of_lt h (by decide)
  simp [isNaN, magnitude_ofMagnitude negative hm, h]

/-- The double nearest to a ratio is a number. -/
theorem isNaN_ofRatio (num den : Nat) : (ofRatio num den).isNaN = false :=
  isNaN_ofMagnitude false (ratioMagnitude_le num den)

end Double

end Ecma
