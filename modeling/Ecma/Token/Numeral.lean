import Ecma.Number.Decimal
import Ecma.Token
import Ecma.Token.Name

/-!
# Numeric literals

Numbers in decimal notation, with a radix mark, or in the two old notations with a leading zero, and
big integers. Underscores may separate digits, except behind a leading zero. No digit, letter or
backslash may stand right behind a number.
-/

namespace Ecma

/-- Digits of a radix, with separators. A separator has to stand between two digits; `afterDigit`
says whether the character before is one. -/
def readDigits (radix : Nat) (afterDigit : Bool) : Reader (List Char)
  | [] => .done [] []
  | c :: cs =>
    if isDigitOf radix c then (readDigits radix true cs).map (c :: ·)
    else if c = '_' then
      if afterDigit && cs.head?.any (isDigitOf radix) then
        (readDigits radix false cs).map (c :: ·)
      else
        .refused .separator cs
    else .done [] (c :: cs)

/-- The characters without separators. -/
def withoutSeparators (cs : List Char) : List Char := cs.filter (· != '_')

/-- The sign of an exponent, if one comes next. -/
def readSign : Reader (List Char)
  | '+' :: cs => .done ['+'] cs
  | '-' :: cs => .done ['-'] cs
  | cs => .done [] cs

/-- An exponent from its mark on: an optional sign and at least one digit. -/
def readExponent : Reader (List Char)
  | [] => .refused .exponentDigits []
  | mark :: cs => (do
      let sign ← readSign
      if ← Reader.next isDecimalDigit then
        let ds ← readDigits 10 false
        return mark :: (sign ++ ds)
      else
        Reader.refuse .exponentDigits : Reader (List Char)) cs

/-- An exponent, if one comes next. -/
def readOptionalExponent : Reader (List Char) := do
  if ← Reader.next isExponentMark then readExponent else return []

/-- The token of a decimal literal. -/
def decimalToken (literal : List Char) : Reader TokenKind :=
  match Decimal.ofChars? literal with
  | some d => pure (.number d.toDouble)
  | none => Reader.refuse .number

/-- The digits behind a radix mark, which comes next. -/
def readRadixLiteral (mark : RadixMark) : Reader TokenKind := do
  Reader.skip
  if ← Reader.next (isDigitOf mark.radix) then
    let ds := withoutSeparators (← readDigits mark.radix false)
    if ← Reader.skipIf 'n' then
      return .bigInt (numeralValue mark.radix ds)
    else
      return .number (Double.ofRadixDigits mark.radix (ds.filterMap (digitValue? mark.radix)))
  else
    Reader.refuse (.radixDigits mark)

/-- A fraction behind old decimal digits: a point and any number of digits. -/
def readLegacyFraction : Reader (List Char) := do
  if ← Reader.skipIf '.' then
    let ds ← Reader.takeWhile isDecimalDigit
    return '.' :: ds
  else
    return []

/-- The rest of a number with a leading zero, behind its whole digits `ds`. -/
def finishLegacyNumber (ds : List Char) : Reader TokenKind := do
  if ds.all isOctalDigit then
    return .legacyOctal (Double.ofRadixDigits 8 (ds.filterMap (digitValue? 8)))
  else
    let fraction ← readLegacyFraction
    let exponent ← readOptionalExponent
    decimalToken ('0' :: ds ++ fraction ++ exponent)

/-- More digits behind a leading zero: an old octal number, or, with an eight or a nine among them,
a decimal number. This is `read_legacy_octal_or_decimal`. -/
def readLegacyNumber (strict : Bool) : Reader TokenKind := do
  if ← Reader.skipIf '_' then
    Reader.refuse .separatorAfterZero
  else
    let ds ← Reader.takeWhile isDecimalDigit
    if strict then
      Reader.refuse .legacyOctal
    else if ← Reader.next (· == 'n') then
      Reader.refuse .bigInt
    else
      finishLegacyNumber ds

/-- The fraction digits behind a point. -/
def readFraction : Reader (List Char) := do
  if ← Reader.next isDecimalDigit then readDigits 10 false else return []

/-- The exponent and the end of a decimal literal, behind its whole part and its fraction. Only an
integer without exponent may be a big integer. -/
def finishDecimal (isWhole : Bool) (mantissa : List Char) : Reader TokenKind := do
  let exponent ← readOptionalExponent
  if ← Reader.next (· == 'n') then
    if isWhole && exponent.isEmpty then
      Reader.skip
      return .bigInt (numeralValue 10 (withoutSeparators mantissa))
    else
      Reader.refuse .bigInt
  else
    decimalToken (withoutSeparators (mantissa ++ exponent))

/-- A decimal literal behind its first character, a digit or a point. -/
def readDecimalLiteral (first : Char) : Reader TokenKind := do
  if first == '.' then
    let fraction ← readFraction
    finishDecimal false ('.' :: fraction)
  else
    let whole ← readDigits 10 true
    if ← Reader.skipIf '.' then
      let fraction ← readFraction
      finishDecimal false (first :: whole ++ '.' :: fraction)
    else
      finishDecimal true (first :: whole)

/-- A number behind its first character, without a look at what follows it. This is
`read_numeric_body`. -/
def readNumberBody (strict : Bool) (first : Char) : Reader TokenKind := fun cs =>
  if first = '0' then
    match cs with
    | [] => readDecimalLiteral first cs
    | c :: _ =>
      match RadixMark.ofChar? c with
      | some mark => readRadixLiteral mark cs
      | none =>
        if isDecimalDigit c || c == '_' then readLegacyNumber strict cs
        else readDecimalLiteral first cs
  else
    readDecimalLiteral first cs

/-- Whether a character may not stand right behind a number. -/
def isGluedToNumber (c : Char) : Bool := isDecimalDigit c || c == '\\' || isIdentifierStart c

/-- A number behind its first character. This is `read_numeric_literal`. -/
def readNumber (strict : Bool) (first : Char) : Reader TokenKind := do
  let kind ← readNumberBody strict first
  if ← Reader.next isGluedToNumber then Reader.refuse .identifierAfterNumber else return kind

/-! ## Every number reader is local -/

open Reader

theorem local_readDigits (radix : Nat) (afterDigit : Bool) :
    Local (readDigits radix afterDigit) := by
  intro cs
  fun_induction readDigits radix afterDigit cs with
  | case1 => exact List.suffix_rfl
  | case2 _ _ _ _ ih => rw [Read.rest_map]; exact ih.trans (List.suffix_cons ..)
  | case3 _ _ _ _ ih => rw [Read.rest_map]; exact ih.trans (List.suffix_cons ..)
  | case4 => exact List.suffix_cons ..
  | case5 => exact List.suffix_rfl

theorem local_readSign : Local readSign := by
  intro cs
  unfold readSign
  split
  · exact List.suffix_cons ..
  · exact List.suffix_cons ..
  · exact List.suffix_rfl

theorem local_readExponent : Local readExponent := by
  intro cs
  cases cs with
  | nil => exact List.suffix_rfl
  | cons mark cs =>
    refine List.IsSuffix.trans ?_ (List.suffix_cons mark cs)
    refine local_bind local_readSign (fun sign => ?_) cs
    refine local_bind (local_next _) fun b => local_ite ?_ (local_refuse _)
    exact local_bind (local_readDigits _ _) fun _ => local_pure _

theorem local_readOptionalExponent : Local readOptionalExponent :=
  local_bind (local_next _) fun _ => local_ite local_readExponent (local_pure _)

theorem local_decimalToken (literal : List Char) : Local (decimalToken literal) := by
  unfold decimalToken
  split
  · exact local_pure _
  · exact local_refuse _

theorem local_readRadixLiteral (mark : RadixMark) : Local (readRadixLiteral mark) := by
  refine local_bind local_skip fun _ => local_bind (local_next _) fun _ => ?_
  refine local_ite (local_bind (local_readDigits _ _) fun _ => ?_) (local_refuse _)
  exact local_bind (local_skipIf _) fun _ => local_ite (local_pure _) (local_pure _)

theorem local_readLegacyFraction : Local readLegacyFraction :=
  local_bind (local_skipIf _) fun _ =>
    local_ite (local_bind (local_takeWhile _) fun _ => local_pure _) (local_pure _)

theorem local_finishLegacyNumber (ds : List Char) : Local (finishLegacyNumber ds) :=
  local_ite (local_pure _) (local_bind local_readLegacyFraction fun _ =>
    local_bind local_readOptionalExponent fun _ => local_decimalToken _)

theorem local_readLegacyNumber (strict : Bool) : Local (readLegacyNumber strict) := by
  refine local_bind (local_skipIf _) fun _ => local_ite (local_refuse _) ?_
  refine local_bind (local_takeWhile _) fun ds => local_ite (local_refuse _) ?_
  exact local_bind (local_next _) fun _ => local_ite (local_refuse _) (local_finishLegacyNumber ds)

theorem local_readFraction : Local readFraction :=
  local_bind (local_next _) fun _ => local_ite (local_readDigits _ _) (local_pure _)

theorem local_finishDecimal (isWhole : Bool) (mantissa : List Char) :
    Local (finishDecimal isWhole mantissa) := by
  refine local_bind local_readOptionalExponent fun _ => local_bind (local_next _) fun _ => ?_
  refine local_ite (local_ite ?_ (local_refuse _)) (local_decimalToken _)
  exact local_bind local_skip fun _ => local_pure _

theorem local_readDecimalLiteral (first : Char) : Local (readDecimalLiteral first) := by
  refine local_ite (local_bind local_readFraction fun _ => local_finishDecimal _ _) ?_
  refine local_bind (local_readDigits _ _) fun _ => local_bind (local_skipIf _) fun _ => ?_
  refine local_ite ?_ (local_finishDecimal _ _)
  exact local_bind local_readFraction fun _ => local_finishDecimal _ _

theorem local_readNumberBody (strict : Bool) (first : Char) :
    Local (readNumberBody strict first) := by
  intro cs
  unfold readNumberBody
  split
  · split
    · exact local_readDecimalLiteral first _
    · split
      · exact local_readRadixLiteral _ _
      · split
        · exact local_readLegacyNumber strict _
        · exact local_readDecimalLiteral first _
  · exact local_readDecimalLiteral first _

/-- A number consumes characters from the front only. -/
theorem local_readNumber (strict : Bool) (first : Char) : Local (readNumber strict first) :=
  local_bind (local_readNumberBody strict first) fun _ =>
    local_bind (local_next _) fun _ => local_ite (local_refuse _) (local_pure _)

end Ecma
