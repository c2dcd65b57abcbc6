import Ecma.Number.Numeric
import Ecma.Proofs.CodePoint
import Mathlib.Data.List.DropRight

/-!
# Trimming texts

The spaces at the ends of a text, as units, and what is left without them: `Text.trimmed`. No space
is half of a surrogate pair, so that trimming units is trimming characters (`Text.chars_trimmed`).
-/

namespace Ecma

/-! ## Spaces -/

/-- The code points of white space and of line terminators: tab, vertical tab, form feed, the byte
order mark and the space separators; line feed, carriage return, and the line and paragraph
separators. -/
def spaceCodes : List Nat :=
  [0x09, 0x0B, 0x0C, 0xFEFF, 0x20, 0xA0, 0x1680, 0x2000, 0x2001, 0x2002, 0x2003, 0x2004, 0x2005,
    0x2006, 0x2007, 0x2008, 0x2009, 0x200A, 0x202F, 0x205F, 0x3000, 0x0A, 0x0D, 0x2028, 0x2029]

/-- Whether a unit is white space or a line terminator. -/
def isSpaceUnit (u : UInt16) : Bool := spaceCodes.contains u.toNat

/-- The text without the spaces at its ends. -/
def Text.trimmed (t : Text) : Text := ⟨(t.units.dropWhile isSpaceUnit).rdropWhile isSpaceUnit⟩

theorem isTrimmed_iff {c : Char} : isTrimmed c = true ↔ c.toNat ∈ spaceCodes := by
  have hmark : c = byteOrderMark ↔ c.toNat = 0xFEFF := Char.toNat_inj.symm
  have hnext : c = '\u0085' ↔ c.toNat = 0x85 := Char.toNat_inj.symm
  simp only [isTrimmed, isUnicodeSpace, spaceCodes, Bool.or_eq_true, Bool.and_eq_true, beq_iff_eq,
    bne_iff_ne, ne_eq, decide_eq_true_eq, hmark, hnext, List.mem_cons, List.not_mem_nil, or_false]
  omega

/-! ## Units and characters -/

/-- Whether the character of a code point is trimmed. -/
def isSpacePoint (p : Nat) : Bool := isTrimmed (charOfCodePoint p)

theorem isSpacePoint_toNat (u : UInt16) : isSpacePoint u.toNat = isSpaceUnit u := by
  have hlt := u.toNat_lt
  rw [Bool.eq_iff_iff, isSpacePoint, isSpaceUnit, List.contains_iff_mem]
  by_cases hs : isSurrogate u.toNat = true
  · rw [charOfCodePoint, if_pos hs]
    simp only [isSurrogate, Bool.and_eq_true, decide_eq_true_eq] at hs
    refine iff_of_false (by decide) ?_
    simp only [spaceCodes, List.mem_cons, List.not_mem_nil, or_false]
    omega
  · rw [isTrimmed_iff, toNat_charOfCodePoint (Bool.not_eq_true _ ▸ hs) (by omega)]

theorem isSpacePoint_of_le {p : Nat} (h : 0x10000 ≤ p) (hlt : p < 0x110000) :
    isSpacePoint p = false := by
  have hs : isSurrogate p = false := by
    simp only [isSurrogate, Bool.and_eq_false_iff, decide_eq_false_iff_not]
    omega
  rw [← Bool.not_eq_true, isSpacePoint, isTrimmed_iff, toNat_charOfCodePoint hs hlt]
  simp only [spaceCodes, List.mem_cons, List.not_mem_nil, or_false]
  omega

/-- A space is no half of a surrogate pair. -/
theorem not_surrogate_of_isSpaceUnit {u : UInt16} (h : isSpaceUnit u = true) :
    isHighSurrogate u = false ∧ isLowSurrogate u = false := by
  simp only [isSpaceUnit, spaceCodes, List.contains_iff_mem, List.mem_cons, List.not_mem_nil,
    or_false] at h
  rw [← Bool.not_eq_true, ← Bool.not_eq_true, isHighSurrogate_eq, isLowSurrogate_eq]
  omega

theorem isSpacePoint_combineSurrogates {u v : UInt16} (hu : isHighSurrogate u = true)
    (hv : isLowSurrogate v = true) : isSpacePoint (combineSurrogates u v) = false := by
  rw [isHighSurrogate_eq] at hu
  rw [isLowSurrogate_eq] at hv
  refine isSpacePoint_of_le ?_ ?_
  · unfold combineSurrogates
    omega
  · unfold combineSurrogates
    omega

/-- The first code point is no space unless the first unit is one. -/
theorem exists_first_codePoint {u : UInt16} (h : isSpaceUnit u = false) (us : List UInt16) :
    ∃ p ps, codePointsOfUnits (u :: us) = p :: ps ∧ isSpacePoint p = false := by
  have hu : isSpacePoint u.toNat = false := (isSpacePoint_toNat u).trans h
  cases us with
  | nil => exact ⟨u.toNat, [], rfl, hu⟩
  | cons v us =>
    rw [codePointsOfUnits]
    split
    · rename_i hpair
      rw [Bool.and_eq_true] at hpair
      exact ⟨_, _, rfl, isSpacePoint_combineSurrogates hpair.1 hpair.2⟩
    · exact ⟨_, _, rfl, hu⟩

/-- The last unit is a code point of its own, or it closes a surrogate pair. -/
theorem codePointsOfUnits_concat (us : List UInt16) (u : UInt16) :
    codePointsOfUnits (us ++ [u]) = codePointsOfUnits us ++ [u.toNat] ∨
      ∃ ps v, isHighSurrogate v = true ∧ isLowSurrogate u = true ∧
        codePointsOfUnits (us ++ [u]) = ps ++ [combineSurrogates v u] := by
  fun_induction codePointsOfUnits us with
  | case1 => exact Or.inl rfl
  | case2 v =>
    rw [List.singleton_append, codePointsOfUnits]
    split
    · rename_i hpair
      rw [Bool.and_eq_true] at hpair
      exact Or.inr ⟨[], v, hpair.1, hpair.2, rfl⟩
    · exact Or.inl rfl
  | case3 v w us hpair ih =>
    rw [List.cons_append, List.cons_append, codePointsOfUnits, if_pos hpair]
    obtain hps | ⟨ps, x, hx, hu, hps⟩ := ih
    · exact Or.inl (congrArg (combineSurrogates v w :: ·) hps)
    · refine Or.inr ⟨combineSurrogates v w :: ps, x, hx, hu, ?_⟩
      exact congrArg (combineSurrogates v w :: ·) hps
  | case4 v w us hpair ih =>
    rw [List.cons_append, List.cons_append, codePointsOfUnits, if_neg hpair]
    obtain hps | ⟨ps, x, hx, hu, hps⟩ := ih
    · exact Or.inl (congrArg (v.toNat :: ·) hps)
    · exact Or.inr ⟨v.toNat :: ps, x, hx, hu, congrArg (v.toNat :: ·) hps⟩

theorem codePointsOfUnits_dropWhile (us : List UInt16) :
    codePointsOfUnits (us.dropWhile isSpaceUnit) =
      (codePointsOfUnits us).dropWhile isSpacePoint := by
  induction us with
  | nil => rfl
  | cons u us ih =>
    by_cases hu : isSpaceUnit u = true
    · have hpoint : isSpacePoint u.toNat = true := (isSpacePoint_toNat u).trans hu
      rw [List.dropWhile_cons_of_pos hu, ih,
        codePointsOfUnits_cons (not_surrogate_of_isSpaceUnit hu).1,
        List.dropWhile_cons_of_pos hpoint]
    · obtain ⟨p, ps, hps, hp⟩ := exists_first_codePoint (Bool.not_eq_true _ ▸ hu) us
      rw [List.dropWhile_cons_of_neg hu, hps, List.dropWhile_cons_of_neg (by simp [hp])]

theorem codePointsOfUnits_rdropWhile (us : List UInt16) :
    codePointsOfUnits (us.rdropWhile isSpaceUnit) =
      (codePointsOfUnits us).rdropWhile isSpacePoint := by
  induction us using List.reverseRecOn with
  | nil => rfl
  | append_singleton us u ih =>
    have hunit := isSpacePoint_toNat u
    by_cases hu : isSpaceUnit u = true
    · have hlast := (codePointsOfUnits_concat us u).resolve_right fun ⟨_, _, _, hlow, _⟩ => by
        rw [(not_surrogate_of_isSpaceUnit hu).2] at hlow
        cases hlow
      rw [List.rdropWhile_concat_pos _ _ _ hu, ih, hlast,
        List.rdropWhile_concat_pos _ _ _ (hunit.trans hu)]
    · rw [List.rdropWhile_concat_neg _ _ _ hu]
      obtain hlast | ⟨ps, v, hv, hlow, hlast⟩ := codePointsOfUnits_concat us u
      · rw [hlast, List.rdropWhile_concat_neg _ _ _ (by rwa [hunit])]
      · have hpair := isSpacePoint_combineSurrogates hv hlow
        rw [hlast, List.rdropWhile_concat_neg _ _ _ (by simp [hpair])]

namespace Text

/-- Trimming units is trimming characters. -/
theorem chars_trimmed (t : Text) : t.trimmed.chars = trimBoth isTrimmed t.chars := by
  have hright : ∀ ps : List Nat, (ps.map charOfCodePoint).rdropWhile isTrimmed =
      (ps.rdropWhile isSpacePoint).map charOfCodePoint := by
    intro ps
    rw [List.rdropWhile, List.rdropWhile, ← List.map_reverse, List.dropWhile_map, List.map_reverse]
    rfl
  show (codePointsOfUnits ((t.units.dropWhile isSpaceUnit).rdropWhile isSpaceUnit)).map _ =
    (((codePointsOfUnits t.units).map charOfCodePoint).dropWhile isTrimmed).rdropWhile isTrimmed
  rw [codePointsOfUnits_rdropWhile, codePointsOfUnits_dropWhile, List.dropWhile_map, hright]
  rfl

theorem eq_empty_of_chars {t : Text} (h : t.chars = []) : t = empty := by
  have hpoints : t.codePoints = [] := List.map_eq_nil_iff.1 h
  have hunits := flatMap_unitsOfCodePoint t.units
  rw [← codePoints, hpoints] at hunits
  cases t
  exact congrArg mk hunits.symm

/-- A lone surrogate is read as the replacement character. -/
theorem replacement_mem_chars {t : Text} (h : t.isWellFormed = false) :
    replacementCharacter ∈ t.chars := by
  obtain ⟨p, hp, hs⟩ := List.all_eq_false.1 h
  refine List.mem_map.2 ⟨p, hp, ?_⟩
  rw [charOfCodePoint, if_pos (by simpa using hs)]

end Text

/-! ## What trimming leaves -/

section

variable {p : Char → Bool} {cs : List Char}

/-- What is not of the class is not trimmed. -/
theorem mem_trimBoth {c : Char} (hc : c ∈ cs) (hp : p c = false) : c ∈ trimBoth p cs := by
  have hdrop : ∀ {ds : List Char}, c ∈ ds → c ∈ ds.dropWhile p := by
    intro ds hds
    rw [← List.takeWhile_append_dropWhile (p := p) (l := ds), List.mem_append] at hds
    refine hds.resolve_left fun htake => ?_
    rw [List.mem_takeWhile_imp htake] at hp
    cases hp
  rw [trimBoth, List.mem_reverse]
  exact hdrop (List.mem_reverse.2 (hdrop hc))

theorem trimBoth_eq_nil_iff : trimBoth p cs = [] ↔ ∀ c ∈ cs, p c = true := by
  constructor
  · intro hnil c hc
    by_contra hp
    have hmem := mem_trimBoth hc (Bool.not_eq_true _ ▸ hp)
    rw [hnil] at hmem
    cases hmem
  · intro hall
    rw [trimBoth, List.dropWhile_eq_nil_iff.2 hall]
    rfl

theorem trimBoth_eq_self (h : ∀ c ∈ cs, p c = false) : trimBoth p cs = cs := by
  have hdrop : ∀ {ds : List Char}, (∀ c ∈ ds, p c = false) → ds.dropWhile p = ds := by
    intro ds hds
    cases ds with
    | nil => rfl
    | cons d ds => exact List.dropWhile_cons_of_neg (by simp [hds d List.mem_cons_self])
  rw [trimBoth, hdrop h, hdrop (by simpa using h), List.reverse_reverse]

end

end Ecma
