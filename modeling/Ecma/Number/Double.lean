import Ecma.Number.Power

/-!
# Double-precision numbers

A number of the language is a binary64 value, given by its bits. The low 63 bits, the magnitude, are
ordered as the absolute values are: zero is zero, infinity is one fixed magnitude, and every larger
magnitude is a NaN. A finite magnitude stands for `significand · 2 ^ exponent`.
-/

namespace Ecma

/-- A binary64 number. -/
structure Double where
  /-- The sign bit, the eleven exponent bits and the 52 fraction bits. -/
  bits : UInt64
deriving DecidableEq, Repr, Inhabited

namespace Double

/-! ## Sign and magnitude -/

/-- The weight of the sign bit. -/
def signWeight : Nat := 0x8000000000000000

/-- The weight of the lowest exponent bit, one more than the largest fraction. -/
def fractionLimit : Nat := 0x10000000000000

/-- The magnitude of infinity; NaNs lie above it. -/
def infinityMagnitude : Nat := 0x7FF0000000000000

/-- The bits without the sign. -/
def magnitude (x : Double) : Nat := x.bits.toNat % signWeight

/-- Whether the sign bit is set. -/
def isNegative (x : Double) : Bool := signWeight ≤ x.bits.toNat

/-- The number with the given sign and magnitude. -/
def ofMagnitude (negative : Bool) (magnitude : Nat) : Double :=
  ⟨UInt64.ofNat (if negative then signWeight + magnitude else magnitude)⟩

/-- Whether the value is no number. -/
def isNaN (x : Double) : Bool := infinityMagnitude < x.magnitude

/-- Whether the value is one of the two zeros. -/
def isZero (x : Double) : Bool := x.magnitude == 0

/-- Whether the value is one of the two infinities. -/
def isInfinite (x : Double) : Bool := x.magnitude == infinityMagnitude

/-- Whether the value is a finite number. -/
def isFinite (x : Double) : Bool := x.magnitude < infinityMagnitude

/-- The positive zero. -/
def zero : Double := ⟨0⟩

/-- The number one. -/
def one : Double := ⟨0x3FF0000000000000⟩

/-- The NaN that operations give. -/
def nan : Double := ⟨0x7FF8000000000000⟩

/-- The positive infinity. -/
def infinity : Double := ⟨0x7FF0000000000000⟩

/-- The negative infinity. -/
def negativeInfinity : Double := ⟨0xFFF0000000000000⟩

/-- The number with the opposite sign. -/
def negate (x : Double) : Double := ofMagnitude (!x.isNegative) x.magnitude

/-! ## Significand and exponent -/

/-- The exponent field of the magnitude. -/
def exponentField (x : Double) : Nat := x.magnitude / fractionLimit

/-- The integer significand of a finite number. -/
def significand (x : Double) : Nat :=
  if x.exponentField = 0 then x.magnitude % fractionLimit
  else fractionLimit + x.magnitude % fractionLimit

/-- The binary exponent that goes with the integer significand. -/
def exponent (x : Double) : Int := (max x.exponentField 1 : Nat) - 1075

/-- Numerator of the absolute value of a finite number. -/
def numerator (x : Double) : Nat := x.significand * pow2 x.exponent.toNat

/-- Denominator of the absolute value of a finite number, a power of two. -/
def denominator (x : Double) : Nat := pow2 (-x.exponent).toNat

/-- The natural number that a number equals, if it equals one; negative zero equals zero. -/
def toNat? (x : Double) : Option Nat :=
  if x.isFinite && (!x.isNegative || x.isZero) && x.numerator % x.denominator == 0 then
    some (x.numerator / x.denominator)
  else
    none

/-- The largest count that a length may be cut to. -/
def maxCount : Nat := 0xFFFFFFFFFFFFFFFF

/-- The whole part of a positive number, at most `maxCount`; zero for all other numbers. -/
def wholePart (x : Double) : Nat :=
  if x.isNegative || x.isNaN then 0
  else if x.isInfinite then maxCount
  else min (x.numerator / x.denominator) maxCount

/-! ## Comparisons -/

/-- Numeric equality: the zeros are equal, and a NaN equals nothing. -/
def equal (x y : Double) : Bool :=
  !x.isNaN && !y.isNaN && (x == y || (x.isZero && y.isZero))

/-- Identity of values: the zeros differ, and all NaNs are the same value. -/
def sameValue (x y : Double) : Bool := (x.isNaN && y.isNaN) || x == y

/-- Identity of values, with the two zeros taken as one. -/
def sameValueZero (x y : Double) : Bool := (x.isNaN && y.isNaN) || equal x y

end Double

end Ecma
