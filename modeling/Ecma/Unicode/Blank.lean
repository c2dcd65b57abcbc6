/-!
# Blanks and line terminators

The characters with the Unicode property `White_Space`, and the line terminators of the language.
-/

namespace Ecma

/-- Whether a character has the Unicode property `White_Space`. -/
def isUnicodeSpace (c : Char) : Bool :=
  let n := c.toNat
  (0x09 ≤ n && n ≤ 0x0D) || n == 0x20 || n == 0x85 || n == 0xA0 || n == 0x1680
    || (0x2000 ≤ n && n ≤ 0x200A) || n == 0x2028 || n == 0x2029 || n == 0x202F || n == 0x205F
    || n == 0x3000

/-- The byte order mark, which counts as a blank. -/
def byteOrderMark : Char := '\uFEFF'

/-- Whether a character ends a line. -/
def isLineTerminator (c : Char) : Bool :=
  c == '\n' || c == '\r' || c == '\u2028' || c == '\u2029'

/-- Whether a character may stand between tokens without ending a line. This is `is_whitespace`. -/
def isBlank (c : Char) : Bool :=
  c == byteOrderMark || (isUnicodeSpace c && !isLineTerminator c)

/-- Whether a character is trimmed from a text before it is read as a number. The control character
next line is a space of Unicode but not one of these. This is `is_js_whitespace`. -/
def isTrimmed (c : Char) : Bool :=
  c == byteOrderMark || (isUnicodeSpace c && c != '\u0085')

end Ecma
