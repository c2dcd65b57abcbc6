import Ecma.Number.Digits
import Ecma.Text

/-!
# Array indices

A text is an array index when it is the decimal numeral, without leading zeros, of a number below
`2 ^ 32 - 1`. No other text is one, so distinct texts never name the same index.
-/

namespace Ecma

/-- One more than the largest array index. It is the largest number of 32 bits, and is no index. -/
def indexLimit : Nat := 0xFFFFFFFF

/-- Appends a decimal digit to a number of 32 bits, if the result is one. -/
def appendDigit? (n d : Nat) : Option Nat :=
  if n * 10 + d ≤ indexLimit then some (n * 10 + d) else none

/-- The number of 32 bits that characters are the numeral of, if they are one without leading zeros;
the largest one is left out. -/
def indexOfChars? (cs : List Char) : Option Nat :=
  if cs = [] ∨ (1 < cs.length ∧ cs.head? = some '0') then none
  else if cs.all isDecimalDigit then
    ((cs.filterMap (digitValue? 10)).foldlM appendDigit? 0).filter (· ≠ indexLimit)
  else none

namespace Text

/-- The decimal numeral of a number. -/
def ofNat (n : Nat) : Text := ⟨(digits n).map fun d => UInt16.ofNat (48 + d)⟩

/-- The array index that a text is, if it is one. -/
def arrayIndex? (t : Text) : Option Nat :=
  if t.isWellFormed then indexOfChars? t.chars else none

end Text

end Ecma
