import Ecma.Proofs.CodePoint
import Ecma.Text.Wtf8

/-!
# The byte form of a text

The bytes of a code point are read back as that code point, whatever follows them: a first byte
announces as many continuation bytes as were written, and six bits of the code point come out of
each. Since a text is what its code points are written as, `decode_encode_text` follows: no text is
changed by writing it down and reading it back.
-/

namespace Ecma.Wtf8

/-! ## Bytes -/

theorem toNat_ofNat8 {n : Nat} (h : n < 0x100) : (UInt8.ofNat n).toNat = n := by
  simp [Nat.mod_eq_of_lt h]

theorem isContinuation_ofNat {n : Nat} (h : n < 0x40) :
    isContinuation (UInt8.ofNat (0x80 + n)) = true := by
  have hb : (UInt8.ofNat (0x80 + n)).toNat = 0x80 + n := toNat_ofNat8 (by omega)
  simp only [isContinuation, Bool.and_eq_true, decide_eq_true_eq, UInt8.le_iff_toNat_le,
    UInt8.lt_iff_toNat_lt, hb, UInt8.reduceToNat]
  omega

@[simp] theorem join_nil (bits : Nat) : join bits [] = bits := rfl

theorem join_cons (bits : Nat) (c : UInt8) (tail : List UInt8) :
    join bits (c :: tail) = join (bits * 0x40 + c.toNat % 0x40) tail := rfl

/-- A continuation byte adds its six bits. -/
theorem join_ofNat {n : Nat} (h : n < 0x40) (bits : Nat) (tail : List UInt8) :
    join bits (UInt8.ofNat (0x80 + n) :: tail) = join (bits * 0x40 + n) tail := by
  have hb : (UInt8.ofNat (0x80 + n)).toNat % 0x40 = n := by
    rw [toNat_ofNat8 (by omega)]
    omega
  rw [join_cons, hb]

/-! ## First bytes -/

theorem lead?_one {n : Nat} (h : n < 0x80) : lead? (UInt8.ofNat n) = some ⟨0, n⟩ := by
  have hb : (UInt8.ofNat n).toNat = n := toNat_ofNat8 (by omega)
  simp only [lead?, UInt8.lt_iff_toNat_lt, hb, UInt8.reduceToNat]
  rw [if_pos (by omega)]

/-- The two smallest first bytes of this form would write a code point that one byte can hold, and
are not read. -/
theorem lead?_two {n : Nat} (hlow : 2 ≤ n) (h : n < 0x20) :
    lead? (UInt8.ofNat (0xC0 + n)) = some ⟨1, n⟩ := by
  have hb : (UInt8.ofNat (0xC0 + n)).toNat = 0xC0 + n := toNat_ofNat8 (by omega)
  have hbits : (0xC0 + n) % 0x20 = n := by omega
  simp only [lead?, UInt8.lt_iff_toNat_lt, hb, UInt8.reduceToNat, hbits]
  rw [if_neg (by omega), if_neg (by omega), if_pos (by omega)]

theorem lead?_three {n : Nat} (h : n < 0x10) :
    lead? (UInt8.ofNat (0xE0 + n)) = some ⟨2, n⟩ := by
  have hb : (UInt8.ofNat (0xE0 + n)).toNat = 0xE0 + n := toNat_ofNat8 (by omega)
  have hbits : (0xE0 + n) % 0x10 = n := by omega
  simp only [lead?, UInt8.lt_iff_toNat_lt, hb, UInt8.reduceToNat, hbits]
  rw [if_neg (by omega), if_neg (by omega), if_neg (by omega), if_pos (by omega)]

theorem lead?_four {n : Nat} (h : n < 5) : lead? (UInt8.ofNat (0xF0 + n)) = some ⟨3, n⟩ := by
  have hb : (UInt8.ofNat (0xF0 + n)).toNat = 0xF0 + n := toNat_ofNat8 (by omega)
  have hbits : (0xF0 + n) % 0x08 = n := by omega
  simp only [lead?, UInt8.lt_iff_toNat_lt, hb, UInt8.reduceToNat, hbits]
  rw [if_neg (by omega), if_neg (by omega), if_neg (by omega), if_neg (by omega),
    if_pos (by omega)]

/-! ## Sequences -/

/-- A first byte and the continuation bytes that it announces, for a code point that exists. -/
structure Sequence where
  /-- The first byte. -/
  first : UInt8
  /-- The continuation bytes. -/
  tail : List UInt8
  /-- The bits of the first byte. -/
  bits : Nat
  isFirst : lead? first = some ⟨tail.length, bits⟩
  continues : tail.all isContinuation = true
  inRange : join bits tail < 0x110000

namespace Sequence

/-- The bytes of the sequence. -/
def bytes (s : Sequence) : List UInt8 := s.first :: s.tail

/-- The code point that the sequence stands for. -/
def codePoint (s : Sequence) : Nat := join s.bits s.tail

/-- A sequence is read as its code point, whatever follows it. -/
theorem decodeUnits_append (s : Sequence) (rest : List UInt8) :
    decodeUnits (s.bytes ++ rest) = unitsOfCodePoint s.codePoint ++ decodeUnits rest := by
  have hlong : ¬(s.tail ++ rest).length < s.tail.length := by
    rw [List.length_append]
    omega
  have hread : unitsOfRead (join s.bits s.tail) = unitsOfCodePoint s.codePoint :=
    if_pos (Nat.le_of_lt_succ s.inRange)
  rw [bytes, List.cons_append, decodeUnits, s.isFirst]
  simp only [List.take_left, List.drop_left, hlong, if_false, s.continues, if_true, hread]

end Sequence

/-! ## Code points -/

/-- The bytes of a code point are a sequence for it. -/
theorem exists_sequence {p : Nat} (hp : p < 0x110000) :
    ∃ s : Sequence, s.bytes = encodeCodePoint p ∧ s.codePoint = p := by
  have hlast : p % 0x40 < 0x40 := by omega
  have hmiddle : p / 0x40 % 0x40 < 0x40 := by omega
  have hfirst : p / 0x1000 % 0x40 < 0x40 := by omega
  unfold encodeCodePoint
  split
  · rename_i h
    exact ⟨⟨_, [], _, lead?_one h, List.all_nil, hp⟩, rfl, rfl⟩
  split
  · have hjoin : join (p / 0x40) [UInt8.ofNat (0x80 + p % 0x40)] = p := by
      rw [join_ofNat hlast, join_nil]
      omega
    have hc : [UInt8.ofNat (0x80 + p % 0x40)].all isContinuation = true := by
      simp only [List.all_cons, isContinuation_ofNat hlast, List.all_nil, Bool.and_self]
    have hlead := lead?_two (n := p / 0x40) (by omega) (by omega)
    exact ⟨⟨_, _, _, hlead, hc, by omega⟩, rfl, hjoin⟩
  split
  · have hjoin : join (p / 0x1000)
        [UInt8.ofNat (0x80 + p / 0x40 % 0x40), UInt8.ofNat (0x80 + p % 0x40)] = p := by
      rw [join_ofNat hmiddle, join_ofNat hlast, join_nil]
      omega
    have hc : [UInt8.ofNat (0x80 + p / 0x40 % 0x40), UInt8.ofNat (0x80 + p % 0x40)].all
        isContinuation = true := by
      simp only [List.all_cons, isContinuation_ofNat hmiddle, isContinuation_ofNat hlast,
        List.all_nil, Bool.and_self]
    have hlead := lead?_three (n := p / 0x1000) (by omega)
    exact ⟨⟨_, _, _, hlead, hc, by omega⟩, rfl, hjoin⟩
  · have hjoin : join (p / 0x40000) [UInt8.ofNat (0x80 + p / 0x1000 % 0x40),
        UInt8.ofNat (0x80 + p / 0x40 % 0x40), UInt8.ofNat (0x80 + p % 0x40)] = p := by
      rw [join_ofNat hfirst, join_ofNat hmiddle, join_ofNat hlast, join_nil]
      omega
    have hc : [UInt8.ofNat (0x80 + p / 0x1000 % 0x40), UInt8.ofNat (0x80 + p / 0x40 % 0x40),
        UInt8.ofNat (0x80 + p % 0x40)].all isContinuation = true := by
      simp only [List.all_cons, isContinuation_ofNat hfirst, isContinuation_ofNat hmiddle,
        isContinuation_ofNat hlast, List.all_nil, Bool.and_self]
    have hlead := lead?_four (n := p / 0x40000) (by omega)
    exact ⟨⟨_, _, _, hlead, hc, by omega⟩, rfl, hjoin⟩

/-- The bytes of a code point are read as its units, whatever follows them. -/
theorem decodeUnits_encodeCodePoint {p : Nat} (hp : p < 0x110000) (rest : List UInt8) :
    decodeUnits (encodeCodePoint p ++ rest) = unitsOfCodePoint p ++ decodeUnits rest := by
  obtain ⟨s, hbytes, rfl⟩ := exists_sequence hp
  rw [← hbytes]
  exact s.decodeUnits_append rest

theorem decodeUnits_flatMap {points : List Nat} (h : ∀ p ∈ points, p < 0x110000) :
    decodeUnits (points.flatMap encodeCodePoint) = points.flatMap unitsOfCodePoint := by
  induction points with
  | nil => simp [decodeUnits]
  | cons p points ih =>
    have hp := h p List.mem_cons_self
    rw [List.flatMap_cons, List.flatMap_cons, decodeUnits_encodeCodePoint hp,
      ih fun q hq => h q (List.mem_cons_of_mem p hq)]

/-- Every text, with or without lone surrogates, is what its bytes are read as. -/
theorem decode_encode_text (t : Text) : decode (encode t) = t := by
  have hread : decodeUnits (encode t) = t.units := by
    rw [encode, Text.codePoints, decodeUnits_flatMap fun p hp => codePoint_lt hp,
      flatMap_unitsOfCodePoint]
  rw [decode, hread]

end Ecma.Wtf8
