import Ecma.Text
import Mathlib.Data.List.Basic

/-!
# Texts and their code points

Joining surrogate pairs loses nothing: a text is what its code points are written as, and the code
points of written characters are those characters. A text therefore reads as a string exactly if it
is that string written down (`Text.toString?_eq_some_iff`).
-/

namespace Ecma

/-! ## Characters -/

theorem isSurrogate_toNat (c : Char) : isSurrogate c.toNat = false := by
  have h : c.toNat.isValidChar := c.valid
  unfold Nat.isValidChar at h
  simp only [isSurrogate, Bool.and_eq_false_iff, decide_eq_false_iff_not]
  omega

theorem toNat_lt (c : Char) : c.toNat < 0x110000 := by
  have h : c.toNat.isValidChar := c.valid
  unfold Nat.isValidChar at h
  omega

theorem charOfCodePoint_toNat (c : Char) : charOfCodePoint c.toNat = c := by
  simp [charOfCodePoint, isSurrogate_toNat, Char.ofNat_toNat]

/-- A code point that is no surrogate is the number of its character. -/
theorem toNat_charOfCodePoint {p : Nat} (hp : isSurrogate p = false) (hlt : p < 0x110000) :
    (charOfCodePoint p).toNat = p := by
  have hv : p.isValidChar := by
    simp only [isSurrogate, Bool.and_eq_false_iff, decide_eq_false_iff_not] at hp
    unfold Nat.isValidChar
    omega
  have hc : Char.ofNat p = Char.ofNatAux p hv := dif_pos hv
  rw [charOfCodePoint, hp, if_neg Bool.false_ne_true, hc]
  rfl

/-! ## Units -/

theorem isHighSurrogate_eq (u : UInt16) :
    isHighSurrogate u = true ↔ 0xD800 ≤ u.toNat ∧ u.toNat ≤ 0xDBFF := by
  simp [isHighSurrogate, UInt16.le_iff_toNat_le]

theorem isLowSurrogate_eq (u : UInt16) :
    isLowSurrogate u = true ↔ 0xDC00 ≤ u.toNat ∧ u.toNat ≤ 0xDFFF := by
  simp [isLowSurrogate, UInt16.le_iff_toNat_le]

theorem toNat_ofNat16 {n : Nat} (h : n < 0x10000) : (UInt16.ofNat n).toNat = n := by
  simp [Nat.mod_eq_of_lt h]

theorem codePointsOfUnits_cons {u : UInt16} (h : isHighSurrogate u = false) (rest : List UInt16) :
    codePointsOfUnits (u :: rest) = u.toNat :: codePointsOfUnits rest := by
  cases rest with
  | nil => rfl
  | cons v rest => simp [codePointsOfUnits, h]

theorem codePointsOfUnits_pair {u v : UInt16} (hu : isHighSurrogate u = true)
    (hv : isLowSurrogate v = true) (rest : List UInt16) :
    codePointsOfUnits (u :: v :: rest) = combineSurrogates u v :: codePointsOfUnits rest := by
  simp [codePointsOfUnits, hu, hv]

/-- The two units of a code point above the first plane are read as that code point, whatever
follows them. -/
theorem codePointsOfUnits_astral {p : Nat} (hp : 0x10000 ≤ p) (hlt : p < 0x110000)
    (rest : List UInt16) :
    codePointsOfUnits (unitsOfCodePoint p ++ rest) = p :: codePointsOfUnits rest := by
  rw [unitsOfCodePoint, if_neg (by omega)]
  generalize hq : 0xD800 + (p - 0x10000) / 0x400 = q
  generalize ht : 0xDC00 + (p - 0x10000) % 0x400 = t
  have hu : (UInt16.ofNat q).toNat = q := toNat_ofNat16 (by omega)
  have hv : (UInt16.ofNat t).toNat = t := toNat_ofNat16 (by omega)
  have hhigh : isHighSurrogate (UInt16.ofNat q) = true := by
    rw [isHighSurrogate_eq, hu]
    omega
  have hlow : isLowSurrogate (UInt16.ofNat t) = true := by
    rw [isLowSurrogate_eq, hv]
    omega
  have hc : combineSurrogates (UInt16.ofNat q) (UInt16.ofNat t) = p := by
    unfold combineSurrogates
    omega
  rw [List.cons_append, List.singleton_append, codePointsOfUnits_pair hhigh hlow, hc]

/-- The units of a character are read as that character, whatever follows them. -/
theorem codePointsOfUnits_unitsOfChar (c : Char) (rest : List UInt16) :
    codePointsOfUnits (unitsOfChar c ++ rest) = c.toNat :: codePointsOfUnits rest := by
  have hs := isSurrogate_toNat c
  have hlt := toNat_lt c
  simp only [isSurrogate, Bool.and_eq_false_iff, decide_eq_false_iff_not] at hs
  unfold unitsOfChar
  by_cases h : c.toNat < 0x10000
  · have hu := toNat_ofNat16 h
    have hhigh : isHighSurrogate (UInt16.ofNat c.toNat) = false := by
      rw [← Bool.not_eq_true, isHighSurrogate_eq, hu]
      omega
    rw [unitsOfCodePoint, if_pos h, List.singleton_append, codePointsOfUnits_cons hhigh, hu]
  · exact codePointsOfUnits_astral (by omega) hlt rest

/-- A surrogate pair is what its code point is written as. -/
theorem unitsOfCodePoint_combineSurrogates {u v : UInt16} (hu : isHighSurrogate u = true)
    (hv : isLowSurrogate v = true) : unitsOfCodePoint (combineSurrogates u v) = [u, v] := by
  rw [isHighSurrogate_eq] at hu
  rw [isLowSurrogate_eq] at hv
  have hp : ¬combineSurrogates u v < 0x10000 := by
    unfold combineSurrogates
    omega
  have hhigh : 0xD800 + (combineSurrogates u v - 0x10000) / 0x400 = u.toNat := by
    unfold combineSurrogates
    omega
  have hlow : 0xDC00 + (combineSurrogates u v - 0x10000) % 0x400 = v.toNat := by
    unfold combineSurrogates
    omega
  simp [unitsOfCodePoint, hp, hhigh, hlow]

theorem unitsOfCodePoint_toNat (u : UInt16) : unitsOfCodePoint u.toNat = [u] := by
  simp [unitsOfCodePoint, u.toNat_lt]

/-- Units are what their code points are written as. -/
theorem flatMap_unitsOfCodePoint (units : List UInt16) :
    (codePointsOfUnits units).flatMap unitsOfCodePoint = units := by
  fun_induction codePointsOfUnits units with
  | case1 => rfl
  | case2 u => simp [unitsOfCodePoint_toNat]
  | case3 u v rest h ih =>
    rw [Bool.and_eq_true] at h
    rw [List.flatMap_cons, ih, unitsOfCodePoint_combineSurrogates h.1 h.2]
    rfl
  | case4 u v rest h ih =>
    rw [List.flatMap_cons, ih, unitsOfCodePoint_toNat]
    rfl

theorem codePoint_lt {units : List UInt16} {p : Nat} (h : p ∈ codePointsOfUnits units) :
    p < 0x110000 := by
  fun_induction codePointsOfUnits units with
  | case1 => cases h
  | case2 u =>
    have hu := u.toNat_lt
    rw [List.mem_singleton.1 h]
    omega
  | case3 u v rest hs ih =>
    rw [Bool.and_eq_true, isHighSurrogate_eq, isLowSurrogate_eq] at hs
    rcases List.mem_cons.1 h with hp | h
    · unfold combineSurrogates at hp
      omega
    · exact ih h
  | case4 u v rest hs ih =>
    rcases List.mem_cons.1 h with rfl | h
    · have hu := u.toNat_lt
      omega
    · exact ih h

namespace Text

/-! ## Strings -/

theorem codePoints_ofChars (cs : List Char) : (ofChars cs).codePoints = cs.map Char.toNat := by
  show codePointsOfUnits (cs.flatMap unitsOfChar) = cs.map Char.toNat
  induction cs with
  | nil => rfl
  | cons c cs ih => rw [List.flatMap_cons, codePointsOfUnits_unitsOfChar, ih, List.map_cons]

theorem isWellFormed_ofChars (cs : List Char) : (ofChars cs).isWellFormed = true := by
  simp [isWellFormed, codePoints_ofChars, isSurrogate_toNat]

theorem chars_ofChars (cs : List Char) : (ofChars cs).chars = cs := by
  rw [chars, codePoints_ofChars, List.map_map]
  exact (List.map_congr_left fun c _ => charOfCodePoint_toNat c).trans (List.map_id cs)

theorem toString?_ofString (s : String) : (ofString s).toString? = some s := by
  rw [ofString, toString?, if_pos (isWellFormed_ofChars _), display, chars_ofChars,
    String.ofList_toList]

/-- A text without lone surrogates is its characters written down. -/
theorem ofChars_chars {t : Text} (h : t.isWellFormed = true) : ofChars t.chars = t := by
  have hp : ∀ p ∈ t.codePoints, unitsOfChar (charOfCodePoint p) = unitsOfCodePoint p := by
    intro p hp
    have hs : isSurrogate p = false := by simpa using List.all_eq_true.1 h p hp
    rw [unitsOfChar, toNat_charOfCodePoint hs (codePoint_lt hp)]
  have hunits : t.chars.flatMap unitsOfChar = t.units := by
    rw [chars, List.flatMap_map, List.flatMap_congr hp]
    exact flatMap_unitsOfCodePoint t.units
  rw [ofChars, hunits]

/-- A text reads as a string exactly if it is that string written down. -/
theorem toString?_eq_some_iff {t : Text} {s : String} : t.toString? = some s ↔ t = ofString s := by
  constructor
  · intro h
    unfold toString? at h
    split at h
    · rename_i hw
      rw [← Option.some.inj h, ofString, display, String.toList_ofList, ofChars_chars hw]
    · cases h
  · rintro rfl
    exact toString?_ofString s

theorem ofString_inj {a b : String} : ofString a = ofString b ↔ a = b := by
  constructor
  · intro h
    exact Option.some.inj ((toString?_ofString a).symm.trans (toString?_eq_some_iff.2 h))
  · rintro rfl
    rfl

end Text

end Ecma
