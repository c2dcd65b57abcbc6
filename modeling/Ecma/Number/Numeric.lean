import Ecma.Number.Decimal
import Ecma.Number.Radix
import Ecma.Text
import Ecma.Unicode.Blank

/-!
# Texts read as numbers

A text is read as a number after trimming: the empty text is zero, the word for infinity may carry a
sign, a radix mark is followed by digits of that radix, and anything else has to be a decimal
literal with an optional sign. What is none of these is not a number.
-/

namespace Ecma

/-- The characters without those of the class at either end. -/
def trimBoth (p : Char → Bool) (cs : List Char) : List Char :=
  ((cs.dropWhile p).reverse.dropWhile p).reverse

/-- One or more digits of a power-of-two radix and nothing else, or no number. This is
`parse_radix_digits`. -/
def radixNumber (radix : Nat) (cs : List Char) : Double :=
  if !cs.isEmpty && cs.all (isDigitOf radix) then
    Double.ofRadixDigits radix (cs.filterMap (digitValue? radix))
  else
    Double.nan

/-- The number of a decimal literal behind a given sign, or no number. -/
def decimalNumber (negative : Bool) (cs : List Char) : Double :=
  match Decimal.ofChars? cs with
  | some d => if negative then d.toDouble.negate else d.toDouble
  | none => Double.nan

/-- The number of an optional sign and a decimal literal, or no number. -/
def signedNumber : List Char → Double
  | '+' :: cs => decimalNumber false cs
  | '-' :: cs => decimalNumber true cs
  | cs => decimalNumber false cs

/-- The word for infinity. -/
def infinityWord : List Char := "Infinity".toList

/-- The number of trimmed characters. -/
def numberOfChars (cs : List Char) : Double :=
  if cs.isEmpty then Double.zero
  else if cs == infinityWord || cs == '+' :: infinityWord then Double.infinity
  else if cs == '-' :: infinityWord then Double.negativeInfinity
  else
    match cs with
    | '0' :: mark :: rest =>
      match RadixMark.ofChar? mark with
      | some m => radixNumber m.radix rest
      | none => signedNumber cs
    | _ => signedNumber cs

/-- The number that a text stands for. This is `string_to_number`. -/
def numberOfText (t : Text) : Double := numberOfChars (trimBoth isTrimmed t.chars)

end Ecma
