import Ecma.Number.Digits
import Ecma.Number.Rounding

/-!
# Decimal literals

A decimal is a natural coefficient and a power of ten. `Decimal.ofChars?` reads the unsigned decimal
literals, digits with at most one point and an optional exponent, and `Decimal.toDouble` is the
nearest double.
-/

namespace Ecma

/-- The number `coefficient · 10 ^ exponent`. -/
structure Decimal where
  /-- All digits, taken as one natural number. -/
  coefficient : Nat
  /-- The power of ten that scales the coefficient. -/
  exponent : Int
deriving DecidableEq, Repr, Inhabited

/-- Splits characters at the first one of a class: what stands before it and, if there is one, what
stands after it. -/
def splitAtFirst (p : Char → Bool) (cs : List Char) : List Char × Option (List Char) :=
  match cs.dropWhile fun c => !p c with
  | [] => (cs, none)
  | _ :: after => (cs.takeWhile fun c => !p c, some after)

/-- Whether a character announces the exponent of a decimal literal. -/
def isExponentMark (c : Char) : Bool := c == 'e' || c == 'E'

namespace Decimal

/-- The value of one or more decimal digits. -/
def digitsValue? (cs : List Char) : Option Nat :=
  if !cs.isEmpty && cs.all isDecimalDigit then some (numeralValue 10 cs) else none

/-- The exponent part after its mark: an optional sign and one or more digits. -/
def exponentOfChars? : List Char → Option Int
  | '+' :: cs => (digitsValue? cs).map fun n => (n : Int)
  | '-' :: cs => (digitsValue? cs).map fun n => -(n : Int)
  | cs => (digitsValue? cs).map fun n => (n : Int)

/-- The coefficient and its scale: digits with at most one point and at least one digit. -/
def mantissaOfChars? (cs : List Char) : Option Decimal :=
  let (whole, fraction) := splitAtFirst (· == '.') cs
  let fraction := fraction.getD []
  (digitsValue? (whole ++ fraction)).map fun n => ⟨n, -(fraction.length : Int)⟩

/-- Reads an unsigned decimal literal. -/
def ofChars? (cs : List Char) : Option Decimal :=
  let (mantissa, exponent) := splitAtFirst isExponentMark cs
  match exponent with
  | none => mantissaOfChars? mantissa
  | some digits => do
    let m ← mantissaOfChars? mantissa
    let e ← exponentOfChars? digits
    return ⟨m.coefficient, m.exponent + e⟩

/-- An exponent beyond which every non-zero coefficient gives an infinity, and below which (after
adding the coefficient's size) every coefficient gives zero. -/
def exponentLimit : Int := 400

/-- The double nearest to a decimal. -/
def toDouble (d : Decimal) : Double :=
  if d.coefficient = 0 then Double.zero
  else if exponentLimit < d.exponent then Double.infinity
  else if d.exponent + (d.coefficient.log2 : Int) < -exponentLimit then Double.zero
  else
    Double.ofRatio (d.coefficient * pow10 d.exponent.toNat) (pow10 (-d.exponent).toNat)

/-- The double nearest to a decimal is a number. -/
theorem isNaN_toDouble (d : Decimal) : d.toDouble.isNaN = false := by
  unfold toDouble
  split
  · decide
  split
  · decide
  split
  · decide
  · exact Double.isNaN_ofRatio ..

end Decimal

end Ecma
