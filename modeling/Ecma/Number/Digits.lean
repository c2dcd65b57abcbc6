/-!
# Digits and numerals

Values of digit characters in a radix, the number that a digit sequence stands for, and the decimal
numeral of a number. `ofDigits_digits` says that a decimal numeral stands for its number, and
`digits_injective` that a number has one numeral.
-/

namespace Ecma

/-- The value of a digit character in a radix of at most 36; letters of either case follow nine. -/
def digitValue? (radix : Nat) (c : Char) : Option Nat :=
  let n := c.toNat
  let value :=
    if 48 ≤ n ∧ n ≤ 57 then n - 48
    else if 97 ≤ n ∧ n ≤ 122 then n - 87
    else if 65 ≤ n ∧ n ≤ 90 then n - 55
    else radix
  if value < radix then some value else none

/-- Whether a character is a digit of the radix. -/
def isDigitOf (radix : Nat) (c : Char) : Bool := (digitValue? radix c).isSome

/-- Whether a character is one of the ten decimal digits. -/
def isDecimalDigit (c : Char) : Bool := isDigitOf 10 c

/-- Whether a character is one of the eight octal digits. -/
def isOctalDigit (c : Char) : Bool := isDigitOf 8 c

/-- The number that digit values stand for, most significant first, read on from `start`. -/
def ofDigitsFrom (radix start : Nat) (ds : List Nat) : Nat :=
  ds.foldl (fun acc d => acc * radix + d) start

/-- The number that digit values stand for, most significant first. -/
def ofDigits (radix : Nat) (ds : List Nat) : Nat := ofDigitsFrom radix 0 ds

/-- The number that the digit characters of a numeral stand for; other characters are passed over.
-/
def numeralValue (radix : Nat) (cs : List Char) : Nat :=
  ofDigits radix (cs.filterMap (digitValue? radix))

/-- The decimal digits of a number, most significant first; zero has the one digit zero. -/
def digits (n : Nat) : List Nat :=
  if n < 10 then [n] else digits (n / 10) ++ [n % 10]
termination_by n
decreasing_by omega

/-- The character of a decimal digit. -/
def digitChar (d : Nat) : Char := Char.ofNat (48 + d)

/-- The decimal numeral of a number, as characters. -/
def numeral (n : Nat) : List Char := (digits n).map digitChar

@[simp] theorem ofDigits_append_single (radix : Nat) (ds : List Nat) (d : Nat) :
    ofDigits radix (ds ++ [d]) = ofDigits radix ds * radix + d := by
  simp [ofDigits, ofDigitsFrom]

/-- A decimal numeral stands for its number. -/
theorem ofDigits_digits (n : Nat) : ofDigits 10 (digits n) = n := by
  fun_induction digits n with
  | case1 n h => simp [ofDigits, ofDigitsFrom]
  | case2 n h ih => rw [ofDigits_append_single, ih]; omega

/-- Numbers with the same decimal digits are equal. -/
theorem digits_injective {m n : Nat} (h : digits m = digits n) : m = n := by
  rw [← ofDigits_digits m, h, ofDigits_digits]

theorem digits_ne_nil (n : Nat) : digits n ≠ [] := by
  rw [digits]; split <;> simp

/-- Every decimal digit is below ten. -/
theorem lt_ten_of_mem_digits {n d : Nat} (h : d ∈ digits n) : d < 10 := by
  fun_induction digits n with
  | case1 n hn => simp at h; omega
  | case2 n hn ih =>
    rcases List.mem_append.1 h with h | h
    · exact ih h
    · simp at h; omega

end Ecma
