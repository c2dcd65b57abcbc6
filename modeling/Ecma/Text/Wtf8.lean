import Ecma.Text

/-!
# Bytes of a text

Every text has a byte form. Each code point, a lone surrogate included, is written in one to four
bytes by the pattern of UTF-8, so that well-formed texts get their UTF-8 bytes and lone surrogates a
three-byte sequence of their own. Reading back is total: what is no byte form of a code point is
read as the replacement character.
-/

namespace Ecma.Wtf8

/-! ## Writing -/

/-- The bytes of one code point. This is `encode_generalized_utf8`. -/
def encodeCodePoint (p : Nat) : List UInt8 :=
  if p < 0x80 then
    [UInt8.ofNat p]
  else if p < 0x800 then
    [UInt8.ofNat (0xC0 + p / 0x40), UInt8.ofNat (0x80 + p % 0x40)]
  else if p < 0x10000 then
    [UInt8.ofNat (0xE0 + p / 0x1000), UInt8.ofNat (0x80 + p / 0x40 % 0x40),
      UInt8.ofNat (0x80 + p % 0x40)]
  else
    [UInt8.ofNat (0xF0 + p / 0x40000), UInt8.ofNat (0x80 + p / 0x1000 % 0x40),
      UInt8.ofNat (0x80 + p / 0x40 % 0x40), UInt8.ofNat (0x80 + p % 0x40)]

/-- The bytes of a text. This is `to_wtf8`. -/
def encode (t : Text) : List UInt8 := t.codePoints.flatMap encodeCodePoint

/-! ## Reading -/

/-- What a first byte announces. -/
structure Lead where
  /-- How many continuation bytes follow. -/
  tail : Nat
  /-- The high bits of the code point. -/
  bits : Nat
deriving DecidableEq, Repr

/-- The announcement of a byte, if it can be the first of a sequence. -/
def lead? (b : UInt8) : Option Lead :=
  if b < 0x80 then some ⟨0, b.toNat⟩
  else if b < 0xC2 then none
  else if b < 0xE0 then some ⟨1, b.toNat % 0x20⟩
  else if b < 0xF0 then some ⟨2, b.toNat % 0x10⟩
  else if b < 0xF5 then some ⟨3, b.toNat % 0x08⟩
  else none

/-- A byte that may follow a first byte. -/
def isContinuation (b : UInt8) : Bool := 0x80 ≤ b && b < 0xC0

/-- The code point of a lead's bits and its continuation bytes. -/
def join (bits : Nat) (tail : List UInt8) : Nat :=
  tail.foldl (fun acc b => acc * 0x40 + b.toNat % 0x40) bits

/-- The unit that marks unreadable bytes. -/
def replacement : UInt16 := 0xFFFD

/-- The units of a code point read from bytes; numbers past the last code point are unreadable. -/
def unitsOfRead (p : Nat) : List UInt16 :=
  if p ≤ 0x10FFFF then unitsOfCodePoint p else [replacement]

/-- The units that bytes stand for. A byte that starts no sequence, or whose sequence is broken off
by a byte that continues nothing, is read as one replacement; a sequence that runs past the end is
read as one replacement and ends the text. -/
def decodeUnits : List UInt8 → List UInt16
  | [] => []
  | b :: rest =>
    match lead? b with
    | none => replacement :: decodeUnits rest
    | some lead =>
      if rest.length < lead.tail then
        [replacement]
      else if (rest.take lead.tail).all isContinuation then
        unitsOfRead (join lead.bits (rest.take lead.tail)) ++ decodeUnits (rest.drop lead.tail)
      else
        replacement :: decodeUnits rest
termination_by bytes => bytes.length
decreasing_by
  all_goals simp only [List.length_cons, List.length_drop]
  all_goals omega

/-- The text that bytes stand for. This is `from_wtf8`. -/
def decode (bytes : List UInt8) : Text := ⟨decodeUnits bytes⟩

end Ecma.Wtf8
