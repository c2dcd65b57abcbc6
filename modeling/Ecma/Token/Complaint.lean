import Ecma.Number.Radix

/-!
# Complaints of the scanner

Every reason for which the scanner refuses a piece of source text, and its wording.
-/

namespace Ecma

/-- Why a piece of source text is no token. -/
inductive Complaint where
  /-- A block comment without its end. -/
  | unterminatedComment
  /-- A string literal without its closing quote on the line. -/
  | unterminatedString
  /-- A template part without its end. -/
  | unterminatedTemplate
  /-- A regular expression without its closing slash on the line. -/
  | unterminatedRegExp
  /-- A backslash at the end of the source. -/
  | unterminatedEscape
  /-- A braced escape without its closing brace. -/
  | unterminatedUnicodeEscape
  /-- An octal escape in a template. -/
  | octalEscapeInTemplate
  /-- An octal escape in strict code. -/
  | octalEscapeInStrict
  /-- The escape of an eight or a nine in a template. -/
  | decimalEscapeInTemplate (digit : Char)
  /-- The escape of an eight or a nine in strict code. -/
  | decimalEscapeInStrict (digit : Char)
  /-- A byte escape without its two digits. -/
  | hexEscape
  /-- A code point escape that is not one. -/
  | unicodeEscape
  /-- A braced escape above the last code point. -/
  | codePointOutOfRange
  /-- A backslash in an identifier that starts no code point escape. -/
  | identifierEscape
  /-- An escape in an identifier for a character that may not stand there. -/
  | identifierUnicodeEscape
  /-- A separator that is not between two digits. -/
  | separator
  /-- A separator behind a leading zero. -/
  | separatorAfterZero
  /-- An exponent mark without digits. -/
  | exponentDigits
  /-- A radix mark without digits. -/
  | radixDigits (mark : RadixMark)
  /-- A leading zero before more digits in strict code. -/
  | legacyOctal
  /-- A big integer with a fraction, an exponent or a leading zero. -/
  | bigInt
  /-- Digits that form no number. -/
  | number
  /-- A digit, letter or backslash right behind a number. -/
  | identifierAfterNumber
  /-- A character that starts no token. -/
  | unexpected (c : Char)
deriving DecidableEq, Repr

/-- The wording of a complaint. -/
def Complaint.message : Complaint → String
  | unterminatedComment => "Unterminated block comment"
  | unterminatedString => "Unterminated string literal"
  | unterminatedTemplate => "Unterminated template literal"
  | unterminatedRegExp => "Unterminated regular expression"
  | unterminatedEscape => "Unterminated escape sequence"
  | unterminatedUnicodeEscape => "Unterminated Unicode escape"
  | octalEscapeInTemplate => "Octal escape sequences are not allowed in templates"
  | octalEscapeInStrict => "Octal escape sequences are not allowed in strict mode"
  | decimalEscapeInTemplate d => "\\" ++ d.toString ++ " is not allowed in template literals"
  | decimalEscapeInStrict d => "\\" ++ d.toString ++ " is not allowed in strict mode"
  | hexEscape => "Invalid hexadecimal escape sequence"
  | unicodeEscape => "Invalid Unicode escape"
  | codePointOutOfRange => "Unicode code point out of range"
  | identifierEscape => "Invalid escape sequence in identifier"
  | identifierUnicodeEscape => "Invalid Unicode escape in identifier"
  | separator => "Numeric separators are not allowed here"
  | separatorAfterZero => "Numeric separators are not allowed after a leading 0"
  | exponentDigits => "Missing exponent digits"
  | radixDigits mark => "Invalid " ++ mark.word ++ " literal"
  | legacyOctal => "Legacy octal literals are not allowed in strict mode"
  | bigInt => "Invalid BigInt literal"
  | number => "Invalid numeric literal"
  | identifierAfterNumber => "Identifier starts immediately after numeric literal"
  | unexpected c => "Unexpected character: " ++ c.toString

end Ecma
