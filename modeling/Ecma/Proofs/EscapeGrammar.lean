import Mathlib.Algebra.Group.Nat.Defs
import Ecma.Proofs.Enclosed
import Ecma.Proofs.LineEnd

/-!
# The grammar of escapes

What may stand behind a backslash, form by form, and the units that each form stands for: `Escape`.
Decoded on their own, escapes are read exactly as this grammar has them
(`readLoneEscape_eq_done_iff`). The reader that looks for the second half of a surrogate pair reads
one of them or two in a row (`readEscape_eq_done`), and what it refuses the grammar does not have
(`not_escape_of_refused`).
-/

namespace Ecma

/-! ## Forms -/

/-- All characters are digits of the radix. -/
def AreDigits (radix : Nat) (ds : List Char) : Prop := ∀ d ∈ ds, isDigitOf radix d = true

instance (radix : Nat) (ds : List Char) : Decidable (AreDigits radix ds) :=
  decidable_of_iff (ds.all (isDigitOf radix) = true) List.all_eq_true

/-- The letters that have a meaning of their own behind a backslash, and their units. -/
def letterUnits : List (Char × UInt16) :=
  [('n', 0x0A), ('r', 0x0D), ('t', 0x09), ('b', 0x08), ('f', 0x0C), ('v', 0x0B)]

/-- The body of a code point escape and its number: four digits, or any number of digits in braces
as long as there is such a code point. -/
inductive CodePointBody : List Char → Nat → Prop where
  | four {ds : List Char} (hlength : ds.length = 4) (hds : AreDigits 16 ds) :
      CodePointBody ds (numeralValue 16 ds)
  | braced {ds : List Char} (hne : ds ≠ []) (hds : AreDigits 16 ds)
      (hrange : numeralValue 16 ds ≤ 0x10FFFF) :
      CodePointBody ('\x7b' :: ds ++ ['\x7d']) (numeralValue 16 ds)

/-- Digits that an octal escape may have: one to three of them, up to `377`. -/
structure IsOctal (ds : List Char) : Prop where
  ne_nil : ds ≠ []
  areDigits : AreDigits 8 ds
  length_le : ds.length ≤ 3
  value_le : numeralValue 8 ds ≤ 0o377

/-- No longer octal escape than these digits stands here. -/
def IsLongestOctal (after ds : List Char) : Prop :=
  IsOctal ds ∧ ∀ ds', IsOctal ds' → ds' <+: ds ++ after → ds'.length ≤ ds.length

/-- One line break, which a carriage return and a line feed make together. -/
inductive LineBreak (after : List Char) : List Char → Prop where
  | pair : LineBreak after ['\r', '\n']
  | single {c : Char} (hc : isLineTerminator c = true)
      (hpair : ¬(c = '\r' ∧ after.head? = some '\n')) : LineBreak after [c]

/-- A character that no escape with a meaning of its own starts with. -/
structure IsPlainEscape (c : Char) : Prop where
  not_letter : c ∉ letterUnits.map Prod.fst
  not_x : c ≠ 'x'
  not_u : c ≠ 'u'
  not_digit : isDecimalDigit c = false
  not_line : isLineTerminator c = false

/-- What stands behind a backslash and before `after`, and the units that it stands for. The old
forms, octal escapes and escaped eights and nines, are there in sloppy strings only. -/
inductive Escape (context : EscapeContext) (after : List Char) :
    List Char → List UInt16 → Prop where
  | letter {c : Char} {u : UInt16} (h : (c, u) ∈ letterUnits) : Escape context after [c] [u]
  | byte {ds : List Char} (hlength : ds.length = 2) (hds : AreDigits 16 ds) :
      Escape context after ('x' :: ds) [UInt16.ofNat (numeralValue 16 ds)]
  | codePoint {body : List Char} {n : Nat} (h : CodePointBody body n) :
      Escape context after ('u' :: body) (unitsOfCodePoint n)
  | null (h : after.head?.any isDecimalDigit = false) : Escape context after ['0'] [0]
  | octal {ds : List Char} (hcontext : context = .sloppy) (h : IsLongestOctal after ds) :
      Escape context after ds [UInt16.ofNat (numeralValue 8 ds)]
  | decimal {d : Char} (hcontext : context = .sloppy) (hd : d = '8' ∨ d = '9') :
      Escape context after [d] (unitsOfChar d)
  | continuation {text : List Char} (h : LineBreak after text) : Escape context after text []
  | itself {c : Char} (hc : IsPlainEscape c) : Escape context after [c] (unitsOfChar c)

/-! ## Digits -/

theorem digitValue?_lt {radix d : Nat} {c : Char} (h : digitValue? radix c = some d) :
    d < radix := by
  have hvalue := Option.ite_none_right_eq_some.1 h
  exact Option.some.inj hvalue.2 ▸ hvalue.1

theorem exists_digitValue? {radix : Nat} {c : Char} (h : isDigitOf radix c = true) :
    ∃ d, digitValue? radix c = some d := Option.isSome_iff_exists.1 h

theorem isDigitOf_of_digitValue? {radix d : Nat} {c : Char} (h : digitValue? radix c = some d) :
    isDigitOf radix c = true := by
  rw [isDigitOf, h]
  rfl

theorem areDigits_nil (radix : Nat) : AreDigits radix [] := fun _ hd => absurd hd List.not_mem_nil

theorem areDigits_cons {radix : Nat} {c : Char} {ds : List Char} :
    AreDigits radix (c :: ds) ↔ isDigitOf radix c = true ∧ AreDigits radix ds :=
  List.forall_mem_cons

/-- The number that the digits of a numeral stand for, read on from `start`. -/
def numeralValueFrom (radix start : Nat) (cs : List Char) : Nat :=
  ofDigitsFrom radix start (cs.filterMap (digitValue? radix))

theorem numeralValueFrom_zero (radix : Nat) (cs : List Char) :
    numeralValueFrom radix 0 cs = numeralValue radix cs := rfl

theorem numeralValueFrom_nil (radix start : Nat) : numeralValueFrom radix start [] = start := rfl

theorem numeralValueFrom_cons {radix d : Nat} {c : Char} (hd : digitValue? radix c = some d)
    (start : Nat) (cs : List Char) :
    numeralValueFrom radix start (c :: cs) = numeralValueFrom radix (start * radix + d) cs := by
  rw [numeralValueFrom, List.filterMap_cons_some hd]
  rfl

/-- Each digit scales what was read before by the radix and adds less than the radix. -/
theorem numeralValueFrom_bounds {radix : Nat} (start : Nat) {ds : List Char}
    (hds : AreDigits radix ds) :
    start * radix ^ ds.length ≤ numeralValueFrom radix start ds ∧
      numeralValueFrom radix start ds < (start + 1) * radix ^ ds.length := by
  induction ds generalizing start with
  | nil => simp [numeralValueFrom_nil]
  | cons c ds ih =>
    obtain ⟨hc, hds⟩ := areDigits_cons.1 hds
    obtain ⟨d, hd⟩ := exists_digitValue? hc
    have hlt := digitValue?_lt hd
    obtain ⟨hlow, hhigh⟩ := ih (start * radix + d) hds
    rw [numeralValueFrom_cons hd, List.length_cons, Nat.pow_succ']
    constructor
    · calc start * (radix * radix ^ ds.length)
          = start * radix * radix ^ ds.length := (Nat.mul_assoc ..).symm
        _ ≤ (start * radix + d) * radix ^ ds.length := Nat.mul_le_mul_right _ (Nat.le_add_right ..)
        _ ≤ numeralValueFrom radix (start * radix + d) ds := hlow
    · calc numeralValueFrom radix (start * radix + d) ds
          < (start * radix + d + 1) * radix ^ ds.length := hhigh
        _ ≤ (start * radix + radix) * radix ^ ds.length :=
            Nat.mul_le_mul_right _ (Nat.add_le_add_left hlt _)
        _ = (start + 1) * (radix * radix ^ ds.length) := by
            rw [← Nat.mul_assoc, Nat.succ_mul]

/-! ## Code points -/

theorem readHexDigits_eq_done_iff {complaint : Complaint} {count start n : Nat}
    {cs rest : List Char} :
    readHexDigits complaint count start cs = .done n rest ↔
      ∃ ds, cs = ds ++ rest ∧ ds.length = count ∧ AreDigits 16 ds ∧
        numeralValueFrom 16 start ds = n := by
  induction count generalizing start cs with
  | zero =>
    constructor
    · intro h
      cases h
      exact ⟨[], rfl, rfl, areDigits_nil 16, rfl⟩
    · rintro ⟨ds, rfl, hlength, -, rfl⟩
      obtain rfl := List.length_eq_zero_iff.1 hlength
      rfl
  | succ count ih =>
    constructor
    · intro h
      cases cs with
      | nil => cases h
      | cons c cs =>
        simp only [readHexDigits] at h
        split at h
        · rename_i d hd
          obtain ⟨ds, rfl, hlength, hds, hvalue⟩ := ih.1 h
          refine ⟨c :: ds, rfl, congrArg (· + 1) hlength, ?_, ?_⟩
          · exact areDigits_cons.2 ⟨isDigitOf_of_digitValue? hd, hds⟩
          · rw [numeralValueFrom_cons hd, hvalue]
        · cases h
    · rintro ⟨ds, rfl, hlength, hds, rfl⟩
      cases ds with
      | nil => cases hlength
      | cons c ds =>
        obtain ⟨hc, hds⟩ := areDigits_cons.1 hds
        obtain ⟨d, hd⟩ := exists_digitValue? hc
        simp only [List.cons_append, readHexDigits, hd]
        exact ih.2 ⟨ds, rfl, Nat.succ.inj hlength, hds, (numeralValueFrom_cons hd start ds).symm⟩

theorem isDigitOf_closingBrace (radix : Nat) : isDigitOf radix '\x7d' = false := by
  simp [isDigitOf, digitValue?]

/-- The digits are cut short as soon as there is no such code point, but more digits would not make
the number smaller. -/
theorem readBracedDigits_eq_done_iff {start count n : Nat} (hstart : start ≤ 0x10FFFF)
    {cs rest : List Char} :
    readBracedDigits start count cs = .done n rest ↔
      ∃ ds, cs = ds ++ '\x7d' :: rest ∧ 0 < count + ds.length ∧ AreDigits 16 ds ∧
        numeralValueFrom 16 start ds = n ∧ n ≤ 0x10FFFF := by
  constructor
  · intro h
    fun_induction readBracedDigits start count cs with
    | case1 => cases h
    | case2 => cases h
    | case3 start count cs hcount =>
      cases h
      exact ⟨[], rfl, Nat.pos_of_ne_zero hcount, areDigits_nil 16, rfl, hstart⟩
    | case4 => cases h
    | case5 => cases h
    | case6 start count c cs hc d hd hrange ih =>
      obtain ⟨ds, rfl, -, hds, hvalue, hn⟩ := ih (Nat.le_of_not_lt hrange) h
      refine ⟨c :: ds, rfl, Nat.lt_add_left count (Nat.succ_pos _), ?_, ?_, hn⟩
      · exact areDigits_cons.2 ⟨isDigitOf_of_digitValue? hd, hds⟩
      · rw [numeralValueFrom_cons hd, hvalue]
  · rintro ⟨ds, rfl, hpos, hds, rfl, hn⟩
    induction ds generalizing start count with
    | nil =>
      have hcount : count ≠ 0 := Nat.pos_iff_ne_zero.1 hpos
      simp [readBracedDigits, hcount, numeralValueFrom_nil]
    | cons c ds ih =>
      obtain ⟨hc, hds⟩ := areDigits_cons.1 hds
      obtain ⟨d, hd⟩ := exists_digitValue? hc
      rw [numeralValueFrom_cons hd] at hn ⊢
      have hbrace : c ≠ '\x7d' := by
        rintro rfl
        rw [isDigitOf_closingBrace] at hc
        cases hc
      have hrange : start * 16 + d ≤ 0x10FFFF :=
        (Nat.le_mul_of_pos_right _ (Nat.pow_pos (by decide))).trans
          ((numeralValueFrom_bounds _ hds).1.trans hn)
      simp only [List.cons_append, readBracedDigits, if_neg hbrace, hd,
        if_neg (Nat.not_lt.2 hrange)]
      exact ih hrange (by omega) hds hn

theorem readCodePoint_eq_done_iff {n : Nat} {cs rest : List Char} :
    readCodePoint cs = .done n rest ↔ ∃ body, cs = body ++ rest ∧ CodePointBody body n := by
  constructor
  · intro h
    unfold readCodePoint at h
    split at h
    · rename_i cs
      obtain ⟨ds, rfl, hpos, hds, rfl, hn⟩ := (readBracedDigits_eq_done_iff (Nat.zero_le _)).1 h
      have hne : ds ≠ [] := List.length_pos_iff.1 (by simpa using hpos)
      exact ⟨'\x7b' :: ds ++ ['\x7d'], by simp, .braced hne hds hn⟩
    · obtain ⟨ds, rfl, hlength, hds, rfl⟩ := readHexDigits_eq_done_iff.1 h
      exact ⟨ds, rfl, .four hlength hds⟩
  · rintro ⟨body, rfl, hbody⟩
    cases hbody with
    | four hlength hds =>
      cases body with
      | nil => cases hlength
      | cons c ds =>
        have hc : c ≠ '\x7b' := by
          rintro rfl
          have hdigit := (areDigits_cons.1 hds).1
          simp [isDigitOf, digitValue?] at hdigit
        rw [List.cons_append, readCodePoint_of_ne hc]
        exact readHexDigits_eq_done_iff.2 ⟨c :: ds, rfl, hlength, hds, rfl⟩
    | @braced ds hne hds hrange =>
      have hpos : 0 < 0 + ds.length := by simpa using List.length_pos_iff.2 hne
      simp only [List.cons_append, List.append_assoc, List.nil_append, readCodePoint]
      exact (readBracedDigits_eq_done_iff (Nat.zero_le _)).2 ⟨ds, rfl, hpos, hds, rfl, hrange⟩

/-! ## Octal escapes -/

/-- How many digits may stand behind the first one: one more if that is at most three. -/
theorem isOctal_cons_iff {c : Char} {d : Nat} (hd : digitValue? 8 c = some d) {ds : List Char} :
    IsOctal (c :: ds) ↔ AreDigits 8 ds ∧ ds.length ≤ if d ≤ 3 then 2 else 1 := by
  have hlt := digitValue?_lt hd
  have hvalue : numeralValue 8 (c :: ds) = numeralValueFrom 8 d ds := by
    rw [← numeralValueFrom_zero, numeralValueFrom_cons hd, Nat.zero_mul, Nat.zero_add]
  constructor
  · intro h
    have hds := (areDigits_cons.1 h.areDigits).2
    have hlength : ds.length ≤ 2 := Nat.le_of_succ_le_succ h.length_le
    have hle := h.value_le
    obtain ⟨hlow, -⟩ := numeralValueFrom_bounds d hds
    rw [hvalue] at hle
    refine ⟨hds, ?_⟩
    split
    · exact hlength
    · by_contra hlong
      have htwo : ds.length = 2 := by omega
      rw [htwo] at hlow
      omega
  · rintro ⟨hds, hlength⟩
    obtain ⟨-, hhigh⟩ := numeralValueFrom_bounds d hds
    have hcases : ds.length = 0 ∨ ds.length = 1 ∨ ds.length = 2 ∧ d ≤ 3 := by
      split at hlength
      · omega
      · omega
    refine ⟨List.cons_ne_nil c ds, areDigits_cons.2 ⟨isDigitOf_of_digitValue? hd, hds⟩, ?_, ?_⟩
    · rw [List.length_cons]
      omega
    · rw [hvalue]
      rcases hcases with h | h | ⟨h, hthree⟩
      all_goals
        rw [h] at hhigh
        omega

theorem readOctalDigits_eq (count start : Nat) (cs : List Char) :
    ∃ ds rest, cs = ds ++ rest ∧
      readOctalDigits count start cs = (numeralValueFrom 8 start ds, rest) ∧ AreDigits 8 ds ∧
      ds.length ≤ count ∧ (ds.length < count → rest.head?.any (isDigitOf 8) = false) := by
  induction count generalizing start cs with
  | zero => exact ⟨[], cs, rfl, rfl, areDigits_nil 8, Nat.le_refl 0, nofun⟩
  | succ count ih =>
    cases cs with
    | nil => exact ⟨[], [], rfl, rfl, areDigits_nil 8, Nat.zero_le _, fun _ => rfl⟩
    | cons c cs =>
      cases hd : digitValue? 8 c with
      | none =>
        refine ⟨[], c :: cs, rfl, ?_, areDigits_nil 8, Nat.zero_le _, fun _ => ?_⟩
        · simp only [readOctalDigits, hd, numeralValueFrom_nil]
        · rw [List.head?_cons, Option.any_some, isDigitOf, hd]
          rfl
      | some d =>
        obtain ⟨ds, rest, rfl, hread, hds, hlength, hnext⟩ := ih (start * 8 + d) cs
        refine ⟨c :: ds, rest, rfl, ?_, ?_, Nat.succ_le_succ hlength, fun hlt => ?_⟩
        · simp only [readOctalDigits, hd, hread, numeralValueFrom_cons hd]
        · exact areDigits_cons.2 ⟨isDigitOf_of_digitValue? hd, hds⟩
        · exact hnext (Nat.lt_of_succ_lt_succ hlt)

/-- As many digits as may stand behind the first one, if they are there, make the longest octal
escape. -/
theorem isLongestOctal_cons {c : Char} {d : Nat} (hd : digitValue? 8 c = some d)
    {ds rest : List Char} (hds : AreDigits 8 ds) (hlength : ds.length ≤ if d ≤ 3 then 2 else 1)
    (hnext : (ds.length < if d ≤ 3 then 2 else 1) → rest.head?.any (isDigitOf 8) = false) :
    IsLongestOctal rest (c :: ds) := by
  refine ⟨(isOctal_cons_iff hd).2 ⟨hds, hlength⟩, fun ds' hoctal hprefix => ?_⟩
  by_contra hlonger
  rw [Nat.not_le] at hlonger
  have hbetween : c :: ds <+: ds' :=
    List.prefix_of_prefix_length_le (List.prefix_append _ rest) hprefix (Nat.le_of_lt hlonger)
  obtain ⟨more, rfl⟩ := hbetween
  rw [List.prefix_append_right_inj] at hprefix
  obtain ⟨hdigits, hcount⟩ := (isOctal_cons_iff hd).1 hoctal
  cases more with
  | nil => simp at hlonger
  | cons e more =>
    obtain ⟨tail, rfl⟩ := hprefix
    have he : isDigitOf 8 e = true := hdigits e (by simp)
    have hstop := hnext (by simp at hcount; omega)
    simp [he] at hstop

theorem IsLongestOctal.eq {ds rest ds' rest' : List Char} (h : IsLongestOctal rest ds)
    (h' : IsLongestOctal rest' ds') (htext : ds ++ rest = ds' ++ rest') : ds = ds' := by
  have hprefix : ds <+: ds' ++ rest' := ⟨rest, htext⟩
  have hprefix' : ds' <+: ds ++ rest := ⟨rest', htext.symm⟩
  have hlength := Nat.le_antisymm (h'.2 ds h.1 hprefix) (h.2 ds' h'.1 hprefix')
  exact (List.append_inj htext hlength).1

theorem isDecimalDigit_iff {c : Char} :
    isDecimalDigit c = true ↔ isDigitOf 8 c = true ∨ c = '8' ∨ c = '9' := by
  have height : c = '8' ↔ c.toNat = 56 := Char.toNat_inj.symm
  have hnine : c = '9' ↔ c.toNat = 57 := Char.toNat_inj.symm
  rw [height, hnine]
  simp only [isDecimalDigit, isDigitOf, digitValue?, Option.isSome_ite]
  split
  · omega
  split
  · omega
  split
  · omega
  · omega

/-- In sloppy code, digits that start with an octal one are read as the longest octal escape. -/
theorem readOctalEscape_sloppy {c : Char} {d : Nat} (hd : digitValue? 8 c = some d)
    (cs : List Char) :
    ∃ ds rest, cs = ds ++ rest ∧ IsLongestOctal rest (c :: ds) ∧
      readOctalEscape .sloppy d cs = .done [UInt16.ofNat (numeralValue 8 (c :: ds))] rest := by
  obtain ⟨ds, rest, rfl, hread, hds, hlength, hnext⟩ :=
    readOctalDigits_eq (if d ≤ 3 then 2 else 1) d cs
  have hlongest := isLongestOctal_cons hd hds hlength hnext
  have hvalue : numeralValue 8 (c :: ds) = numeralValueFrom 8 d ds := by
    rw [← numeralValueFrom_zero, numeralValueFrom_cons hd, Nat.zero_mul, Nat.zero_add]
  refine ⟨ds, rest, rfl, hlongest, ?_⟩
  unfold readOctalEscape
  split
  · rename_i hzero
    obtain ⟨rfl, hdecimal⟩ := hzero
    -- no digit follows, so the zero stands alone
    cases ds with
    | nil => rw [hvalue, numeralValueFrom_nil]; rfl
    | cons e ds =>
      have he : isDecimalDigit e = true :=
        isDecimalDigit_iff.2 (Or.inl (areDigits_cons.1 hds).1)
      simp [he] at hdecimal
  · simp only [EscapeContext.octalComplaint?, hread, hvalue]

theorem eq_zero_of_digitValue? {c : Char} (h : digitValue? 8 c = some 0) : c = '0' := by
  have hc : c.toNat = ('0' : Char).toNat := by
    have hvalue := Option.some.inj (Option.ite_none_right_eq_some.1 h).2
    show c.toNat = 48
    split at hvalue
    · omega
    split at hvalue
    · omega
    split at hvalue
    · omega
    · omega
  exact Char.toNat_inj.1 hc

/-- What is read behind a backslash and an octal digit is a zero unit or an octal escape. -/
theorem escape_of_readOctalEscape {context : EscapeContext} {c : Char} {d : Nat}
    (hd : digitValue? 8 c = some d) {cs rest : List Char} {units : List UInt16}
    (h : readOctalEscape context d cs = .done units rest) :
    ∃ text, c :: cs = text ++ rest ∧ Escape context rest text units := by
  by_cases hsloppy : context = .sloppy
  · subst hsloppy
    obtain ⟨ds, rest', rfl, hlongest, hread⟩ := readOctalEscape_sloppy hd cs
    rw [hread] at h
    cases h
    exact ⟨c :: ds, rfl, .octal rfl hlongest⟩
  · unfold readOctalEscape at h
    split at h
    · rename_i hzero
      obtain ⟨rfl, hdecimal⟩ := hzero
      obtain rfl := eq_zero_of_digitValue? hd
      cases h
      exact ⟨['0'], rfl, .null (by simpa using hdecimal)⟩
    · cases context with
      | template => cases h
      | strict => cases h
      | sloppy => exact absurd rfl hsloppy

/-! ## All escapes -/

theorem letterEscape?_eq_some_iff {c : Char} {u : UInt16} :
    letterEscape? c = some u ↔ (c, u) ∈ letterUnits := by
  constructor
  · intro h
    unfold letterEscape? at h
    repeat' split at h
    all_goals simp_all [letterUnits]
  · intro h
    simp only [letterUnits, List.mem_cons, Prod.mk.injEq, List.not_mem_nil, or_false] at h
    rcases h with ⟨rfl, rfl⟩ | ⟨rfl, rfl⟩ | ⟨rfl, rfl⟩ | ⟨rfl, rfl⟩ | ⟨rfl, rfl⟩ | ⟨rfl, rfl⟩
    all_goals rfl

theorem letterEscape?_eq_none_iff {c : Char} :
    letterEscape? c = none ↔ c ∉ letterUnits.map Prod.fst := by
  rw [Option.eq_none_iff_forall_ne_some, List.mem_map, not_exists]
  constructor
  · rintro h ⟨d, u⟩ ⟨hmem, rfl⟩
    exact h u (letterEscape?_eq_some_iff.2 hmem)
  · intro h u hu
    exact h (c, u) ⟨letterEscape?_eq_some_iff.1 hu, rfl⟩

/-- Behind a line terminator, what is left is left of a line break. -/
theorem lineBreak_afterLineTerminator {c : Char} (hc : isLineTerminator c = true)
    (cs : List Char) :
    ∃ text, c :: cs = text ++ afterLineTerminator c cs ∧
      LineBreak (afterLineTerminator c cs) text := by
  unfold afterLineTerminator
  split
  · rename_i rest
    split
    · rename_i hr
      subst hr
      exact ⟨['\r', '\n'], rfl, .pair⟩
    · rename_i hr
      exact ⟨[c], rfl, .single hc fun h => hr h.1⟩
  · rename_i hnext
    refine ⟨[c], rfl, .single hc fun h => ?_⟩
    cases cs with
    | nil => cases h.2
    | cons d cs => exact hnext cs (congrArg (· :: cs) (Option.some.inj h.2))

theorem LineBreak.exists_afterLineTerminator {after text : List Char} (h : LineBreak after text) :
    ∃ c cs, text ++ after = c :: cs ∧ isLineTerminator c = true ∧
      afterLineTerminator c cs = after := by
  cases h with
  | pair => exact ⟨'\r', '\n' :: after, rfl, rfl, rfl⟩
  | @single c hc hpair =>
    refine ⟨c, after, rfl, hc, ?_⟩
    unfold afterLineTerminator
    split
    · exact if_neg fun hr => hpair ⟨hr, rfl⟩
    · rfl

/-- The escape behind a backslash, decoded on its own, without a look for the second half of a
surrogate pair. -/
def readLoneEscape (context : EscapeContext) : Reader (List UInt16)
  | 'u' :: cs => (readCodePoint cs).map unitsOfCodePoint
  | cs => readEscape context cs

theorem readLoneEscape_of_ne (context : EscapeContext) {c : Char} (hc : c ≠ 'u') (cs : List Char) :
    readLoneEscape context (c :: cs) = readEscape context (c :: cs) := by
  unfold readLoneEscape
  split
  · rename_i heq
    exact absurd (List.cons.inj heq).1 hc
  · rfl

theorem escape_of_readLoneEscape {context : EscapeContext} {cs rest : List Char}
    {units : List UInt16} (h : readLoneEscape context cs = .done units rest) :
    ∃ text, cs = text ++ rest ∧ Escape context rest text units := by
  cases cs with
  | nil => cases h
  | cons c cs =>
    by_cases hu : c = 'u'
    · subst hu
      obtain ⟨n, hread, rfl⟩ := Read.map_eq_done.1 h
      obtain ⟨body, rfl, hbody⟩ := readCodePoint_eq_done_iff.1 hread
      exact ⟨'u' :: body, rfl, .codePoint hbody⟩
    rw [readLoneEscape_of_ne context hu] at h
    simp only [readEscape] at h
    split at h
    · rename_i u hletter
      cases h
      exact ⟨[c], rfl, .letter (letterEscape?_eq_some_iff.1 hletter)⟩
    rename_i hletter
    split at h
    · rename_i d hd
      exact escape_of_readOctalEscape hd h
    rename_i hoctal
    split at h
    · rename_i hdecimal
      cases context with
      | template => cases h
      | strict => cases h
      | sloppy =>
        cases h
        exact ⟨[c], rfl, .decimal rfl hdecimal⟩
    rename_i hdecimal
    split at h
    · rename_i hx
      subst hx
      obtain ⟨n, hread, rfl⟩ := Read.map_eq_done.1 h
      obtain ⟨ds, rfl, hlength, hds, rfl⟩ := readHexDigits_eq_done_iff.1 hread
      exact ⟨'x' :: ds, rfl, .byte hlength hds⟩
    rename_i hx
    split at h
    · rename_i hline
      cases h
      obtain ⟨text, htext, hbreak⟩ := lineBreak_afterLineTerminator hline cs
      exact ⟨text, htext, .continuation hbreak⟩
    · rename_i hline
      cases h
      have hdigit : isDecimalDigit c = false := by
        rw [← Bool.not_eq_true, isDecimalDigit_iff, not_or]
        exact ⟨by simp [isDigitOf, hoctal], hdecimal⟩
      refine ⟨[c], rfl, .itself ⟨letterEscape?_eq_none_iff.1 hletter, hx, hu, hdigit, ?_⟩⟩
      exact Bool.not_eq_true _ ▸ hline

/-- No letter with a meaning of its own is an octal digit. -/
theorem readLoneEscape_octal (context : EscapeContext) {c : Char} {d : Nat}
    (hd : digitValue? 8 c = some d) (cs : List Char) :
    readLoneEscape context (c :: cs) = readOctalEscape context d cs := by
  have hletter : letterEscape? c = none := by
    rw [letterEscape?_eq_none_iff]
    simp only [letterUnits, List.map_cons, List.map_nil, List.mem_cons, List.not_mem_nil, or_false]
    rintro (rfl | rfl | rfl | rfl | rfl | rfl)
    all_goals cases hd
  have hu : c ≠ 'u' := by
    rintro rfl
    cases hd
  rw [readLoneEscape_of_ne context hu]
  simp only [readEscape, hletter, hd]

theorem readEscape_itself (context : EscapeContext) {c : Char} (hc : IsPlainEscape c)
    (cs : List Char) : readEscape context (c :: cs) = .done (unitsOfChar c) cs := by
  have hletter := letterEscape?_eq_none_iff.2 hc.not_letter
  have hdigit := hc.not_digit
  rw [← Bool.not_eq_true, isDecimalDigit_iff, not_or] at hdigit
  have hoctal : digitValue? 8 c = none := by simpa [isDigitOf] using hdigit.1
  simp [readEscape, hletter, hoctal, hdigit.2, hc.not_x, hc.not_u, hc.not_line]

/-- Every escape of the grammar is read, whatever stands behind it. -/
theorem Escape.readLoneEscape_eq {context : EscapeContext} {after text : List Char}
    {units : List UInt16} (h : Escape context after text units) :
    readLoneEscape context (text ++ after) = .done units after := by
  cases h with
  | @letter c u hmem =>
    have hletter := letterEscape?_eq_some_iff.2 hmem
    have hu : c ≠ 'u' := by
      rintro rfl
      cases hletter
    rw [List.singleton_append, readLoneEscape_of_ne context hu]
    simp [readEscape, hletter]
  | @byte ds hlength hds =>
    rw [List.cons_append, readLoneEscape_of_ne context (by decide)]
    exact Read.map_eq_done.2 ⟨_, readHexDigits_eq_done_iff.2 ⟨ds, rfl, hlength, hds, rfl⟩, rfl⟩
  | @codePoint body n hbody =>
    exact Read.map_eq_done.2 ⟨n, readCodePoint_eq_done_iff.2 ⟨body, rfl, hbody⟩, rfl⟩
  | null hnext =>
    have hread := readLoneEscape_octal context (c := '0') (d := 0) rfl after
    rw [List.singleton_append, hread]
    simp [readOctalEscape, hnext]
  | octal hcontext hlongest =>
    subst hcontext
    cases text with
    | nil => exact absurd rfl hlongest.1.ne_nil
    | cons c ds =>
      obtain ⟨d, hd⟩ := exists_digitValue? (areDigits_cons.1 hlongest.1.areDigits).1
      obtain ⟨ds', rest, htext, hlongest', hread⟩ := readOctalEscape_sloppy hd (ds ++ after)
      have hds : c :: ds = c :: ds' := hlongest.eq hlongest' (congrArg (c :: ·) htext)
      obtain rfl := (List.cons.inj hds).2
      obtain rfl := List.append_cancel_left htext
      exact (readLoneEscape_octal .sloppy hd (ds ++ after)).trans hread
  | @decimal d hcontext hd =>
    subst hcontext
    rcases hd with rfl | rfl
    all_goals rfl
  | continuation hbreak =>
    obtain ⟨c, cs, htext, hc, hafter⟩ := hbreak.exists_afterLineTerminator
    have hu : c ≠ 'u' := by
      rintro rfl
      cases hc
    rw [htext, readLoneEscape_of_ne context hu, readEscape_lineTerminator context hc, hafter]
  | @itself c hc =>
    rw [List.singleton_append, readLoneEscape_of_ne context hc.not_u, readEscape_itself context hc]

/-- Decoded on their own, escapes are read exactly as the grammar has them. -/
theorem readLoneEscape_eq_done_iff {context : EscapeContext} {cs rest : List Char}
    {units : List UInt16} :
    readLoneEscape context cs = .done units rest ↔
      ∃ text, cs = text ++ rest ∧ Escape context rest text units := by
  constructor
  · exact escape_of_readLoneEscape
  · rintro ⟨text, rfl, h⟩
    exact h.readLoneEscape_eq

/-! ## Surrogate pairs -/

theorem readEscape_codePoint (context : EscapeContext) (cs : List Char) :
    readEscape context ('u' :: cs) = (readPairedCodePoint cs).map unitsOfCodePoint := rfl

theorem readLoneEscape_codePoint (context : EscapeContext) (cs : List Char) :
    readLoneEscape context ('u' :: cs) = (readCodePoint cs).map unitsOfCodePoint := rfl

theorem unitsOfCodePoint_of_isUnitOf {p : UInt16 → Bool} {n : Nat} (h : isUnitOf p n = true) :
    unitsOfCodePoint n = [UInt16.ofNat n] ∧ p (UInt16.ofNat n) = true := by
  rw [isUnitOf, Bool.and_eq_true, decide_eq_true_eq] at h
  exact ⟨if_pos (Nat.lt_succ_of_le h.1), h.2⟩

/-- The two halves of a pair, decoded on their own, are the units of the pair. -/
theorem unitsOfCodePoint_pair {high low : Nat} (hhigh : isUnitOf isHighSurrogate high = true)
    (hlow : isUnitOf isLowSurrogate low = true) :
    unitsOfCodePoint (combineSurrogates (UInt16.ofNat high) (UInt16.ofNat low)) =
      unitsOfCodePoint high ++ unitsOfCodePoint low := by
  obtain ⟨hunits, hsurrogate⟩ := unitsOfCodePoint_of_isUnitOf hhigh
  obtain ⟨hunits', hsurrogate'⟩ := unitsOfCodePoint_of_isUnitOf hlow
  rw [unitsOfCodePoint_combineSurrogates hsurrogate hsurrogate', hunits, hunits']
  rfl

theorem isUnitOf_high_of_low {n : Nat} (h : isUnitOf isLowSurrogate n = true) :
    isUnitOf isHighSurrogate n = false := by
  obtain ⟨-, hlow⟩ := unitsOfCodePoint_of_isUnitOf h
  have hhigh : isHighSurrogate (UInt16.ofNat n) = false := by
    rw [isLowSurrogate_eq] at hlow
    rw [← Bool.not_eq_true, isHighSurrogate_eq]
    omega
  rw [isUnitOf, hhigh, Bool.and_false]

/-- What is read behind a backslash is one escape, or two of them with a backslash between. -/
theorem readEscape_eq_done {context : EscapeContext} {cs rest : List Char} {units : List UInt16}
    (h : readEscape context cs = .done units rest) :
    readLoneEscape context cs = .done units rest ∨
      ∃ first middle second, readLoneEscape context cs = .done first ('\\' :: middle) ∧
        readLoneEscape context middle = .done second rest ∧ units = first ++ second := by
  cases cs with
  | nil => exact Or.inl h
  | cons c cs =>
    by_cases hu : c = 'u'
    · subst hu
      rw [readEscape_codePoint] at h
      obtain ⟨n, hread, rfl⟩ := Read.map_eq_done.1 h
      rcases readPairedCodePoint_cases hread with
        hone | ⟨high, low, second, hhigh, huhigh, hlow, hulow, hn⟩
      · left
        rw [readLoneEscape_codePoint, hone]
        rfl
      · refine Or.inr ⟨unitsOfCodePoint high, 'u' :: second, unitsOfCodePoint low, ?_, ?_,
          hn ▸ unitsOfCodePoint_pair huhigh hulow⟩
        · rw [readLoneEscape_codePoint, hhigh]
          rfl
        · rw [readLoneEscape_codePoint, hlow]
          rfl
    · exact Or.inl ((readLoneEscape_of_ne context hu cs).trans h)

/-- An escape is read on its own, or together with the escape behind it, which is then read on its
own too. -/
theorem readEscape_of_readLoneEscape {context : EscapeContext} {cs rest : List Char}
    {units : List UInt16} (h : readLoneEscape context cs = .done units rest) :
    readEscape context cs = .done units rest ∨
      ∃ middle second rest', rest = '\\' :: middle ∧
        readEscape context middle = .done second rest' ∧
        readEscape context cs = .done (units ++ second) rest' := by
  cases cs with
  | nil => exact Or.inl h
  | cons c cs =>
    by_cases hu : c = 'u'
    · subst hu
      rw [readLoneEscape_codePoint] at h
      obtain ⟨n, hread, rfl⟩ := Read.map_eq_done.1 h
      rw [readEscape_codePoint]
      by_cases hpair : ∃ second low rest', rest = '\\' :: 'u' :: second ∧
          isUnitOf isHighSurrogate n = true ∧ readCodePoint second = .done low rest' ∧
          isUnitOf isLowSurrogate low = true
      · obtain ⟨second, low, rest', rfl, hhigh, hsecond, hlow⟩ := hpair
        have hlone := readPairedCodePoint_single hsecond (isUnitOf_high_of_low hlow)
        have hboth := readPairedCodePoint_pair hread hhigh hsecond hlow
        refine Or.inr ⟨'u' :: second, unitsOfCodePoint low, rest', rfl, ?_, ?_⟩
        · rw [readEscape_codePoint, hlone]
          rfl
        · exact Read.map_eq_done.2 ⟨_, hboth, unitsOfCodePoint_pair hhigh hlow⟩
      · refine Or.inl (Read.map_eq_done.2 ⟨n, ?_, rfl⟩)
        by_cases hhigh : isUnitOf isHighSurrogate n = true
        · refine readPairedCodePoint_unpaired hread fun second low rest' hrest hsecond => ?_
          rw [← Bool.not_eq_true]
          exact fun hlow => hpair ⟨second, low, rest', hrest, hhigh, hsecond, hlow⟩
        · exact readPairedCodePoint_single hread (Bool.not_eq_true _ ▸ hhigh)
    · exact Or.inl ((readLoneEscape_of_ne context hu cs).symm.trans h)

/-- What is refused behind a backslash is not in the grammar. -/
theorem not_escape_of_refused {context : EscapeContext} {cs rest : List Char} {c : Complaint}
    (h : readEscape context cs = .refused c rest) {text after : List Char} {units : List UInt16}
    (hcs : cs = text ++ after) : ¬Escape context after text units := by
  intro hescape
  have hlone := hescape.readLoneEscape_eq
  rw [← hcs] at hlone
  rcases readEscape_of_readLoneEscape hlone with hread | ⟨middle, second, rest', -, -, hread⟩
  · rw [h] at hread
    cases hread
  · rw [h] at hread
    cases hread

end Ecma
