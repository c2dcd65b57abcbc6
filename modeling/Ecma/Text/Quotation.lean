import Ecma.Unicode.Unmarked

/-!
# Quotations

A quotation shows a character string on one line: between double quotes, with escapes for the quote,
the backslash, line ends and every character without a mark of its own.
-/

namespace Ecma

namespace Quotation

/-- The escape of a code point by its hexadecimal number. -/
def numericEscape (c : Char) : List Char :=
  '\\' :: 'u' :: '\x7b' :: (Nat.toDigits 16 c.toNat ++ ['\x7d'])

/-- Whether a character is shown by its number. -/
def isHidden (c : Char) : Bool := c.toNat < 0x20 || c.toNat == 0x7F || isUnmarked c

/-- A character as it stands in a quotation. -/
def escape (c : Char) : List Char :=
  if c = '\x00' then ['\\', '0']
  else if c = '\t' then ['\\', 't']
  else if c = '\n' then ['\\', 'n']
  else if c = '\r' then ['\\', 'r']
  else if c = '"' then ['\\', '"']
  else if c = '\\' then ['\\', '\\']
  else if isHidden c then numericEscape c
  else [c]

end Quotation

/-- The quotation of a character string. -/
def quotation (s : String) : String :=
  String.ofList ('"' :: (s.toList.flatMap Quotation.escape ++ ['"']))

end Ecma
