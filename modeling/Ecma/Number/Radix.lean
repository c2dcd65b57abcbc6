/-!
# Radix marks

A letter behind a leading zero announces digits of another radix than ten. All three radices are
powers of two.
-/

namespace Ecma

/-- The three literals that a mark after a leading zero announces. -/
inductive RadixMark where
  | hexadecimal
  | octal
  | binary
deriving DecidableEq, Repr

namespace RadixMark

/-- The radix of the digits behind the mark. -/
def radix : RadixMark → Nat
  | hexadecimal => 16
  | octal => 8
  | binary => 2

/-- The adjective for the literal. -/
def word : RadixMark → String
  | hexadecimal => "hexadecimal"
  | octal => "octal"
  | binary => "binary"

/-- The mark that a character is. -/
def ofChar? (c : Char) : Option RadixMark :=
  if c == 'x' || c == 'X' then some hexadecimal
  else if c == 'o' || c == 'O' then some octal
  else if c == 'b' || c == 'B' then some binary
  else none

end RadixMark

end Ecma
