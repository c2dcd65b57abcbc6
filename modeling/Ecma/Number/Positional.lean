import Ecma.Number.Shortest

/-!
# Positional notation

Numbers are always written positionally, never with an exponent. A formatter gives the text of a
finite number, with an exponent if the number is very large or very small. `withoutExponent` takes
the exponent out of such a text: it moves the point by it, and fills up with zeros on either side of
the digits.
-/

namespace Ecma

/-! ## Moving the point -/

/-- Digits with the point behind the first `point` of them, with zeros where there are no digits: at
least one digit stands on each side of the point, and there is no point behind the last digit. -/
def withPoint (digits : List Char) (point : Int) : List Char :=
  if point ≤ 0 then
    '0' :: '.' :: List.replicate (-point).toNat '0' ++ digits
  else if (digits.length : Int) ≤ point then
    digits ++ List.replicate (point - digits.length).toNat '0'
  else
    digits.take point.toNat ++ '.' :: digits.drop point.toNat

/-- Splits a leading minus sign off. -/
def splitSign : List Char → List Char × List Char
  | '-' :: cs => (['-'], cs)
  | cs => ([], cs)

/-- One more than the largest exponent that is read; it fits into 64 bits with its sign. -/
def shiftLimit : Int := 0x8000000000000000

/-- By how many places the characters behind an exponent mark move the point. -/
def shiftOfChars? (cs : List Char) : Option Int :=
  (Decimal.exponentOfChars? cs).filter fun e => -shiftLimit ≤ e && e < shiftLimit

/-- The text of a number without its exponent. A text that has none is left alone, and so is one
with an exponent that is none. -/
def withoutExponent (text : List Char) : List Char :=
  let (front, back) := splitAtFirst (· == 'e') text
  match back.bind shiftOfChars? with
  | none => text
  | some shift =>
    let (sign, mantissa) := splitSign front
    let whole := mantissa.takeWhile (· != '.')
    sign ++ withPoint (mantissa.filter (· != '.')) (whole.length + shift)

/-! ## The formatter -/

/-- The most digits that are written before the point without an exponent. -/
def maxWholeDigits : Int := 21

/-- The most places behind the point at which the first digit is written without an exponent. -/
def maxLeadingPlaces : Int := 6

/-- The characters of a decimal, with an exponent behind its digits if the point is too far away
from them. -/
def Decimal.written (d : Decimal) : List Char :=
  let ds := numeral d.coefficient
  let point : Int := ds.length + d.exponent
  if -maxLeadingPlaces < point ∧ point ≤ maxWholeDigits then withPoint ds point
  else
    let shift := point - 1
    withPoint ds 1 ++ 'e' :: (if shift < 0 then '-' else '+') :: numeral shift.natAbs

namespace Double

/-- The characters of a finite non-zero number: the fewest digits that read back. -/
def written (x : Double) : List Char :=
  (if x.isNegative then ['-'] else []) ++ x.shortest.written

/-- The characters of a number, given a formatter for the finite ones other than zero. Neither zero
shows a sign. This is `to_string`. -/
def charsBy (format : Double → List Char) (x : Double) : List Char :=
  if x.isNaN then "NaN".toList
  else if x.isZero then ['0']
  else if x.isInfinite then (if x.isNegative then "-Infinity" else "Infinity").toList
  else withoutExponent (format x)

/-- The characters of a number. -/
def chars (x : Double) : List Char := x.charsBy written

/-- The text of a number. -/
def display (x : Double) : String := String.ofList x.chars

end Double

end Ecma
