import Ecma.Proofs.ByteForm

/-!
# Byte forms and UTF-8

On texts without lone surrogates the byte form is UTF-8. A code point that is a character has the
bytes that UTF-8 gives the character, and the code points of a written string are its characters, so
`encode_decode_utf8` follows: a string, written as a text, has its UTF-8 encoding for its byte form,
and that encoding is read as the string.
-/

namespace Ecma.Wtf8

/-- The UTF-8 encoding of a string. -/
def utf8Bytes (s : String) : List UInt8 := s.toUTF8.data.toList

theorem utf8Bytes_eq (s : String) : utf8Bytes s = s.toList.flatMap String.utf8EncodeChar := by
  have hencode : s.toUTF8 = s.toList.utf8Encode := String.utf8Encode_toList.symm
  rw [utf8Bytes, hencode, List.utf8Encode, List.toList_data_toByteArray]

/-- In each of the four lengths, the bytes of a character are those of UTF-8. -/
theorem encodeCodePoint_toNat (c : Char) : encodeCodePoint c.toNat = String.utf8EncodeChar c := by
  have hlt := toNat_lt c
  have hval : c.val.toNat = c.toNat := rfl
  simp only [encodeCodePoint, String.utf8EncodeChar, hval, ← Nat.lt_succ_iff, Nat.succ_eq_add_one,
    Nat.reduceAdd]
  split
  · rfl
  split
  · have hfirst : c.toNat / 0x40 % 0x20 = c.toNat / 0x40 := Nat.mod_eq_of_lt (by omega)
    rw [hfirst, Nat.add_comm 0xC0, Nat.add_comm 0x80]
  split
  · have hfirst : c.toNat / 0x1000 % 0x10 = c.toNat / 0x1000 := Nat.mod_eq_of_lt (by omega)
    rw [hfirst, Nat.add_comm 0xE0, Nat.add_comm 0x80, Nat.add_comm 0x80]
  · have hfirst : c.toNat / 0x40000 % 8 = c.toNat / 0x40000 := Nat.mod_eq_of_lt (by omega)
    rw [hfirst, Nat.add_comm 0xF0, Nat.add_comm 0x80, Nat.add_comm 0x80, Nat.add_comm 0x80]

theorem utf8Bytes_eq_codePoints (s : String) :
    utf8Bytes s = (s.toList.map Char.toNat).flatMap encodeCodePoint := by
  rw [utf8Bytes_eq, List.flatMap_map]
  exact (List.flatMap_congr fun c _ => encodeCodePoint_toNat c).symm

/-- The byte form of a string is its UTF-8 encoding, and its UTF-8 encoding is read as the string.
-/
theorem encode_decode_utf8 (s : String) :
    encode (Text.ofString s) = utf8Bytes s ∧ decode (utf8Bytes s) = Text.ofString s := by
  constructor
  · rw [encode, Text.ofString, Text.codePoints_ofChars, utf8Bytes_eq_codePoints]
  · have hlt : ∀ p ∈ s.toList.map Char.toNat, p < 0x110000 := by
      intro p hp
      obtain ⟨c, -, rfl⟩ := List.mem_map.1 hp
      exact toNat_lt c
    rw [decode, utf8Bytes_eq_codePoints, decodeUnits_flatMap hlt, List.flatMap_map]
    rfl

end Ecma.Wtf8
