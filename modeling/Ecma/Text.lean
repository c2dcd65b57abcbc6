/-!
# Texts as sequences of 16-bit code units

A text of the language is any finite sequence of 16-bit code units. Two adjacent units that form a
surrogate pair stand for one code point above `0xFFFF`; every other unit stands for itself, lone
surrogates included. `Text.codePoints` is that reading, and every other view of a text (characters,
bytes, decimal indices) goes through the units or through this reading.
-/

namespace Ecma

/-- A text: a finite sequence of 16-bit code units, well formed or not. -/
structure Text where
  /-- The code units in order. -/
  units : List UInt16
deriving DecidableEq, Repr, Inhabited

/-! ## Surrogates -/

/-- A unit that can open a surrogate pair. -/
def isHighSurrogate (u : UInt16) : Bool := 0xD800 ≤ u && u ≤ 0xDBFF

/-- A unit that can close a surrogate pair. -/
def isLowSurrogate (u : UInt16) : Bool := 0xDC00 ≤ u && u ≤ 0xDFFF

/-- The code point that a surrogate pair stands for. -/
def combineSurrogates (high low : UInt16) : Nat :=
  0x10000 + (high.toNat - 0xD800) * 0x400 + (low.toNat - 0xDC00)

/-- A number that is the value of a surrogate unit and so of no character. -/
def isSurrogate (codePoint : Nat) : Bool := 0xD800 ≤ codePoint && codePoint ≤ 0xDFFF

/-- The units of a code point: itself, or a surrogate pair above `0xFFFF`. -/
def unitsOfCodePoint (codePoint : Nat) : List UInt16 :=
  if codePoint < 0x10000 then
    [UInt16.ofNat codePoint]
  else
    [UInt16.ofNat (0xD800 + (codePoint - 0x10000) / 0x400),
      UInt16.ofNat (0xDC00 + (codePoint - 0x10000) % 0x400)]

/-- The units of a character. -/
def unitsOfChar (c : Char) : List UInt16 := unitsOfCodePoint c.toNat

/-- The code points that a sequence of units stands for: surrogate pairs are joined, and any other
unit, a lone surrogate too, is its own code point. -/
def codePointsOfUnits : List UInt16 → List Nat
  | [] => []
  | [u] => [u.toNat]
  | u :: v :: rest =>
    if isHighSurrogate u && isLowSurrogate v then
      combineSurrogates u v :: codePointsOfUnits rest
    else
      u.toNat :: codePointsOfUnits (v :: rest)

/-- The character that stands in for what no character can show. -/
def replacementCharacter : Char := '\uFFFD'

/-- The character of a code point, with the replacement character for a lone surrogate. -/
def charOfCodePoint (codePoint : Nat) : Char :=
  if isSurrogate codePoint then replacementCharacter else Char.ofNat codePoint

namespace Text

/-! ## Building texts -/

/-- The text without units. -/
def empty : Text := ⟨[]⟩

/-- The text of a list of characters. -/
def ofChars (cs : List Char) : Text := ⟨cs.flatMap unitsOfChar⟩

/-- The text of a character string. -/
def ofString (s : String) : Text := ofChars s.toList

/-- The first text followed by the second. -/
def append (a b : Text) : Text := ⟨a.units ++ b.units⟩

instance : Append Text := ⟨append⟩

/-- Texts one after the other, with a separator between any two. -/
def joinWith (separator : Text) (texts : List Text) : Text :=
  ⟨separator.units.intercalate (texts.map units)⟩

/-- The text followed by one character. -/
def push (t : Text) (c : Char) : Text := ⟨t.units ++ unitsOfChar c⟩

/-- The text followed by the characters of a string. -/
def pushString (t : Text) (s : String) : Text := t ++ ofString s

/-! ## Reading texts -/

/-- The number of code units. -/
def length (t : Text) : Nat := t.units.length

/-- Whether the text has no unit. -/
def isEmpty (t : Text) : Bool := t.units.isEmpty

/-- The code points of the text, lone surrogates among them. -/
def codePoints (t : Text) : List Nat := codePointsOfUnits t.units

/-- Whether the text has no lone surrogate. -/
def isWellFormed (t : Text) : Bool := t.codePoints.all fun p => !isSurrogate p

/-- The characters of the text, one replacement character for each lone surrogate. -/
def chars (t : Text) : List Char := t.codePoints.map charOfCodePoint

/-- The text as a string, one replacement character for each lone surrogate. -/
def display (t : Text) : String := String.ofList t.chars

/-- The text as a string, if it is well formed. This is `to_well_formed_string`. -/
def toString? (t : Text) : Option String := if t.isWellFormed then some t.display else none

@[simp] theorem units_append (a b : Text) : (a ++ b).units = a.units ++ b.units := rfl

@[simp] theorem units_empty : empty.units = [] := rfl

@[simp] theorem append_empty (t : Text) : t ++ empty = t := by
  show Text.mk (t.units ++ []) = t
  simp

@[simp] theorem empty_append (t : Text) : empty ++ t = t := rfl

theorem append_assoc (a b c : Text) : a ++ b ++ c = a ++ (b ++ c) := by
  show Text.mk (a.units ++ b.units ++ c.units) = Text.mk (a.units ++ (b.units ++ c.units))
  simp

end Text

end Ecma
