import Ecma.Proofs.ByteForm
import Mathlib.Data.List.Chain

/-!
# Which bytes are written

Bytes that are read without a replacement are a run of sequences, one for each code point. Writing
the text again gives these bytes back unless one of two things happened: a sequence was longer than
its code point needs, or two sequences of a lone surrogate each stood side by side and were joined.
Neither is refused by the reader, and neither is ever written (`not_overlong_encode`,
`not_splitsPair_encode`), so these two are all that keeps reading from being undone
(`encode_decode_iff`).
-/

namespace Ecma.Wtf8

/-! ## Bytes of a sequence -/

theorem isContinuation_iff {b : UInt8} :
    isContinuation b = true ↔ 0x80 ≤ b.toNat ∧ b.toNat < 0xC0 := by
  simp [isContinuation, UInt8.le_iff_toNat_le, UInt8.lt_iff_toNat_lt]

/-- What a first byte announces, by its value. -/
theorem lead?_cases {b : UInt8} {lead : Lead} (h : lead? b = some lead) :
    (b.toNat < 0x80 ∧ lead = ⟨0, b.toNat⟩) ∨
    (0xC2 ≤ b.toNat ∧ b.toNat < 0xE0 ∧ lead = ⟨1, b.toNat - 0xC0⟩) ∨
    (0xE0 ≤ b.toNat ∧ b.toNat < 0xF0 ∧ lead = ⟨2, b.toNat - 0xE0⟩) ∨
    (0xF0 ≤ b.toNat ∧ b.toNat < 0xF5 ∧ lead = ⟨3, b.toNat - 0xF0⟩) := by
  simp only [lead?, UInt8.lt_iff_toNat_lt, UInt8.reduceToNat] at h
  split at h
  · rename_i hone
    exact Or.inl ⟨hone, (Option.some.inj h).symm⟩
  split at h
  · cases h
  split at h
  · have hbits : b.toNat % 0x20 = b.toNat - 0xC0 := by omega
    rw [hbits] at h
    exact Or.inr (Or.inl ⟨by omega, by omega, (Option.some.inj h).symm⟩)
  split at h
  · have hbits : b.toNat % 0x10 = b.toNat - 0xE0 := by omega
    rw [hbits] at h
    exact Or.inr (Or.inr (Or.inl ⟨by omega, by omega, (Option.some.inj h).symm⟩))
  split at h
  · have hbits : b.toNat % 0x08 = b.toNat - 0xF0 := by omega
    rw [hbits] at h
    exact Or.inr (Or.inr (Or.inr ⟨by omega, by omega, (Option.some.inj h).symm⟩))
  · cases h

namespace Sequence

variable {s : Sequence}

/-- The four lengths of a sequence. -/
theorem cases (s : Sequence) :
    (s.first.toNat < 0x80 ∧ s.tail = [] ∧ s.codePoint = s.first.toNat) ∨
    (∃ c, 0xC2 ≤ s.first.toNat ∧ s.first.toNat < 0xE0 ∧ s.tail = [c] ∧
      s.codePoint = (s.first.toNat - 0xC0) * 0x40 + c.toNat % 0x40) ∨
    (∃ c d, 0xE0 ≤ s.first.toNat ∧ s.first.toNat < 0xF0 ∧ s.tail = [c, d] ∧
      s.codePoint = ((s.first.toNat - 0xE0) * 0x40 + c.toNat % 0x40) * 0x40 + d.toNat % 0x40) ∨
    (∃ c d e, 0xF0 ≤ s.first.toNat ∧ s.first.toNat < 0xF5 ∧ s.tail = [c, d, e] ∧
      s.codePoint = (((s.first.toNat - 0xF0) * 0x40 + c.toNat % 0x40) * 0x40 + d.toNat % 0x40) *
        0x40 + e.toNat % 0x40) := by
  rcases lead?_cases s.isFirst with ⟨h, hlead⟩ | ⟨hl, hu, hlead⟩ | ⟨hl, hu, hlead⟩ | ⟨hl, hu, hlead⟩
  all_goals have hlength := congrArg Lead.tail hlead
  all_goals have hbits := congrArg Lead.bits hlead
  all_goals simp only at hlength hbits
  · have htail := List.length_eq_zero_iff.1 hlength
    refine Or.inl ⟨h, htail, ?_⟩
    rw [codePoint, htail, hbits, join_nil]
  · obtain ⟨c, htail⟩ := List.length_eq_one_iff.1 hlength
    refine Or.inr (Or.inl ⟨c, hl, hu, htail, ?_⟩)
    rw [codePoint, htail, hbits, join_cons, join_nil]
  · obtain ⟨c, d, htail⟩ := List.length_eq_two.1 hlength
    refine Or.inr (Or.inr (Or.inl ⟨c, d, hl, hu, htail, ?_⟩))
    rw [codePoint, htail, hbits, join_cons, join_cons, join_nil]
  · obtain ⟨c, d, e, htail⟩ := List.length_eq_three.1 hlength
    refine Or.inr (Or.inr (Or.inr ⟨c, d, e, hl, hu, htail, ?_⟩))
    rw [codePoint, htail, hbits, join_cons, join_cons, join_cons, join_nil]

/-- The bytes behind the first one continue it. -/
theorem isContinuation_of_mem {c : UInt8} (h : c ∈ s.tail) : 0x80 ≤ c.toNat ∧ c.toNat < 0xC0 :=
  isContinuation_iff.1 (List.all_eq_true.1 s.continues c h)

end Sequence

/-! ## Sequences that are too long -/

/-- Whether two bytes start a sequence that is longer than its code point needs. -/
def startsOverlong (first second : UInt8) : Bool :=
  (first == 0xE0 && second < 0xA0) || (first == 0xF0 && second < 0x90)

/-- Some sequence of the bytes is longer than its code point needs. -/
def Overlong (bytes : List UInt8) : Prop :=
  ∃ first second, startsOverlong first second = true ∧ [first, second] <:+: bytes

theorem startsOverlong_iff {first second : UInt8} :
    startsOverlong first second = true ↔
      (first.toNat = 0xE0 ∧ second.toNat < 0xA0) ∨ (first.toNat = 0xF0 ∧ second.toNat < 0x90) := by
  simp [startsOverlong, UInt8.lt_iff_toNat_lt, ← UInt8.toNat_inj]

theorem ofNat_eq {n : Nat} {b : UInt8} (h : n = b.toNat) : UInt8.ofNat n = b := by
  rw [h, UInt8.ofNat_toNat]

/-- A sequence that is not too long is the one that is written for its code point. -/
theorem Sequence.encodeCodePoint_codePoint {s : Sequence}
    (h : ∀ c ∈ s.tail.head?, startsOverlong s.first c = false) :
    encodeCodePoint s.codePoint = s.bytes := by
  have hlt : s.codePoint < 0x110000 := s.inRange
  have hcont := fun c => s.isContinuation_of_mem (c := c)
  rw [bytes]
  rcases s.cases with ⟨hfirst, htail, hp⟩ | ⟨c, hl, hu, htail, hp⟩ | ⟨c, d, hl, hu, htail, hp⟩ |
    ⟨c, d, e, hl, hu, htail, hp⟩
  all_goals rw [htail] at h hcont ⊢
  · rw [encodeCodePoint, if_pos (by omega), ofNat_eq hp]
  · have hc := hcont c (by simp)
    rw [encodeCodePoint, if_neg (by omega), if_pos (by omega), ofNat_eq (b := s.first) (by omega),
      ofNat_eq (b := c) (by omega)]
  · have hc := hcont c (by simp)
    have hd := hcont d (by simp)
    have hshort := h c rfl
    rw [← Bool.not_eq_true, startsOverlong_iff] at hshort
    rw [encodeCodePoint, if_neg (by omega), if_neg (by omega), if_pos (by omega),
      ofNat_eq (b := s.first) (by omega), ofNat_eq (b := c) (by omega),
      ofNat_eq (b := d) (by omega)]
  · have hc := hcont c (by simp)
    have hd := hcont d (by simp)
    have he := hcont e (by simp)
    have hshort := h c rfl
    rw [← Bool.not_eq_true, startsOverlong_iff] at hshort
    rw [encodeCodePoint, if_neg (by omega), if_neg (by omega), if_neg (by omega),
      ofNat_eq (b := s.first) (by omega), ofNat_eq (b := c) (by omega),
      ofNat_eq (b := d) (by omega), ofNat_eq (b := e) (by omega)]

/-- What is written for a code point is not too long. -/
theorem startsOverlong_encodeCodePoint {p : Nat} (hp : p < 0x110000) {first second : UInt8}
    {rest : List UInt8} (h : encodeCodePoint p = first :: second :: rest) :
    startsOverlong first second = false := by
  rw [← Bool.not_eq_true, startsOverlong_iff]
  unfold encodeCodePoint at h
  split at h
  · cases h
  split at h
  · obtain ⟨rfl, -⟩ := List.cons.inj h
    rw [toNat_ofNat8 (by omega)]
    omega
  split at h
  · obtain ⟨rfl, htail⟩ := List.cons.inj h
    obtain ⟨rfl, -⟩ := List.cons.inj htail
    rw [toNat_ofNat8 (by omega), toNat_ofNat8 (by omega)]
    omega
  · obtain ⟨rfl, htail⟩ := List.cons.inj h
    obtain ⟨rfl, -⟩ := List.cons.inj htail
    rw [toNat_ofNat8 (by omega), toNat_ofNat8 (by omega)]
    omega

/-! ## Surrogates side by side -/

/-- Two code points are a high and a low surrogate. -/
def IsPair (p q : Nat) : Prop := (0xD800 ≤ p ∧ p < 0xDC00) ∧ 0xDC00 ≤ q ∧ q < 0xE000

/-- Two sequences side by side stand for a high and a low surrogate. -/
def SplitsPair (bytes : List UInt8) : Prop :=
  ∃ a b c : UInt8, (0xA0 ≤ a ∧ a < 0xB0) ∧ 0xB0 ≤ c ∧ [0xED, a, b, 0xED, c] <:+: bytes

theorem head_codePointsOfUnits {v : UInt16} {rest : List UInt16} {q : Nat}
    (h : q ∈ (codePointsOfUnits (v :: rest)).head?) : q = v.toNat ∨ 0x10000 ≤ q := by
  generalize hunits : v :: rest = units at h
  fun_cases codePointsOfUnits units with
  | case1 => cases hunits
  | case2 u =>
    cases hunits
    exact Or.inl (Option.some.inj h).symm
  | case3 u w rest hs =>
    cases hunits
    rw [codePointsOfUnits, if_pos hs] at h
    have hq : combineSurrogates v w = q := Option.some.inj h
    right
    unfold combineSurrogates at hq
    omega
  | case4 u w rest hs =>
    cases hunits
    rw [codePointsOfUnits, if_neg hs] at h
    exact Or.inl (Option.some.inj h).symm

/-- No surrogate pair is left among the code points of a text. -/
theorem isChain_codePointsOfUnits (units : List UInt16) :
    (codePointsOfUnits units).IsChain fun p q => ¬IsPair p q := by
  fun_induction codePointsOfUnits units with
  | case1 => exact .nil
  | case2 u => exact .singleton _
  | case3 u v rest hs ih =>
    refine ih.cons fun q _ hpair => ?_
    have hp := hpair.1.2
    unfold combineSurrogates at hp
    omega
  | case4 u v rest hs ih =>
    refine ih.cons fun q hq hpair => hs ?_
    obtain ⟨hu, hv⟩ := hpair
    rw [Bool.and_eq_true, isHighSurrogate_eq, isLowSurrogate_eq]
    rcases head_codePointsOfUnits hq with rfl | hq
    · omega
    · omega

/-- The first unit of a code point is a low surrogate only if the code point is. -/
theorem head_unitsOfCodePoint {q : Nat} (hq : q < 0x110000) {v : UInt16} {rest : List UInt16}
    (h : v ∈ (unitsOfCodePoint q ++ rest).head?) (hv : isLowSurrogate v = true) :
    0xDC00 ≤ q ∧ q < 0xE000 := by
  rw [isLowSurrogate_eq] at hv
  unfold unitsOfCodePoint at h
  split at h
  · obtain rfl := Option.some.inj h
    rw [toNat_ofNat16 (by omega)] at hv
    omega
  · obtain rfl := Option.some.inj h
    rw [toNat_ofNat16 (by omega)] at hv
    omega

/-- A unit that no low surrogate follows is its own code point. -/
theorem codePointsOfUnits_lone {u : UInt16} {rest : List UInt16}
    (h : ∀ v ∈ rest.head?, isLowSurrogate v = false) :
    codePointsOfUnits (u :: rest) = u.toNat :: codePointsOfUnits rest := by
  cases rest with
  | nil => rfl
  | cons v rest =>
    have hv := h v rfl
    simp [codePointsOfUnits, hv]

/-- Code points without a surrogate pair side by side are read back from their units. -/
theorem codePointsOfUnits_flatMap {points : List Nat} (hlt : ∀ p ∈ points, p < 0x110000)
    (hchain : points.IsChain fun p q => ¬IsPair p q) :
    codePointsOfUnits (points.flatMap unitsOfCodePoint) = points := by
  induction points with
  | nil => rfl
  | cons p points ih =>
    have hrest := ih (fun q hq => hlt q (List.mem_cons_of_mem p hq)) hchain.tail
    rw [List.flatMap_cons]
    by_cases hp : p < 0x10000
    · rw [unitsOfCodePoint, if_pos hp, List.singleton_append]
      by_cases hhigh : isHighSurrogate (UInt16.ofNat p) = true
      · rw [codePointsOfUnits_lone, hrest, toNat_ofNat16 hp]
        intro v hv
        rw [← Bool.not_eq_true]
        intro hlow
        cases points with
        | nil => cases hv
        | cons q points =>
          rw [List.flatMap_cons] at hv
          rw [isHighSurrogate_eq, toNat_ofNat16 hp] at hhigh
          have hq := head_unitsOfCodePoint (hlt q (by simp)) hv hlow
          exact hchain.rel_head? rfl ⟨by omega, hq⟩
      · rw [Bool.not_eq_true] at hhigh
        rw [codePointsOfUnits_cons hhigh, hrest, toNat_ofNat16 hp]
    · rw [codePointsOfUnits_astral (by omega) (hlt p (by simp)), hrest]

/-! ## Runs of sequences -/

/-- A text that starts with no character of a class does not start inside a run of them. -/
theorem infix_of_all {p : UInt8 → Bool} {a : UInt8} (ha : p a = false) {l run rest : List UInt8}
    (hrun : run.all p = true) (h : a :: l <:+: run ++ rest) : a :: l <:+: rest := by
  induction run with
  | nil => exact h
  | cons c run ih =>
    rw [List.all_cons, Bool.and_eq_true] at hrun
    rcases List.infix_cons_iff.1 h with hfirst | h
    · obtain ⟨rfl, -⟩ := List.cons_prefix_cons.1 hfirst
      rw [ha] at hrun
      cases hrun.1
    · exact ih hrun.2 h

/-- Where a byte that continues nothing stands among sequences, one of them starts. -/
theorem exists_sequence_of_infix {a : UInt8} (ha : isContinuation a = false) {l : List UInt8}
    {run : List Sequence} (h : a :: l <:+: run.flatMap Sequence.bytes) :
    ∃ front s back, run = front ++ s :: back ∧
      a :: l <+: s.bytes ++ back.flatMap Sequence.bytes := by
  induction run with
  | nil => simp at h
  | cons s run ih =>
    rw [List.flatMap_cons, Sequence.bytes, List.cons_append] at h
    rcases List.infix_cons_iff.1 h with hfirst | h
    · exact ⟨[], s, run, rfl, hfirst⟩
    · obtain ⟨front, s', back, rfl, hback⟩ := ih (infix_of_all ha s.continues h)
      exact ⟨s :: front, s', back, rfl, hback⟩

theorem isContinuation_of_startsOverlong {first second : UInt8}
    (h : startsOverlong first second = true) : isContinuation first = false := by
  rw [startsOverlong_iff] at h
  rw [← Bool.not_eq_true, isContinuation_iff]
  omega

/-- Where two bytes start a sequence that is too long, such a sequence stands. -/
theorem exists_overlong {run : List Sequence} (h : Overlong (run.flatMap Sequence.bytes)) :
    ∃ s ∈ run, ∃ c ∈ s.tail.head?, startsOverlong s.first c = true := by
  obtain ⟨first, second, hstarts, hinfix⟩ := h
  have hcont := isContinuation_of_startsOverlong hstarts
  obtain ⟨front, s, back, rfl, hprefix⟩ := exists_sequence_of_infix hcont hinfix
  refine ⟨s, by simp, second, ?_⟩
  rw [startsOverlong_iff] at hstarts
  rw [Sequence.bytes, List.cons_append] at hprefix
  obtain ⟨rfl, hbehind⟩ := List.cons_prefix_cons.1 hprefix
  rcases s.cases with ⟨hone, -⟩ | ⟨c, hl, hu, -⟩ | ⟨c, d, -, -, htail, -⟩ |
    ⟨c, d, e, -, -, htail, -⟩
  · omega
  · omega
  · rw [htail] at hbehind ⊢
    obtain ⟨rfl, -⟩ := List.cons_prefix_cons.1 hbehind
    exact ⟨rfl, startsOverlong_iff.2 hstarts⟩
  · rw [htail] at hbehind ⊢
    obtain ⟨rfl, -⟩ := List.cons_prefix_cons.1 hbehind
    exact ⟨rfl, startsOverlong_iff.2 hstarts⟩

/-- A sequence that starts like those of surrogates has three bytes. -/
theorem Sequence.surrogate_tail {s : Sequence} {l rest : List UInt8}
    (h : 0xED :: l <+: s.bytes ++ rest) :
    ∃ c d, s.tail = [c, d] ∧ s.codePoint = (0xD * 0x40 + c.toNat % 0x40) * 0x40 + d.toNat % 0x40 ∧
      l <+: c :: d :: rest := by
  rw [bytes, List.cons_append] at h
  obtain ⟨hfirst, h⟩ := List.cons_prefix_cons.1 h
  have hfirst : s.first.toNat = 0xED := by rw [← hfirst]; rfl
  rcases s.cases with ⟨hone, -⟩ | ⟨c, hl, hu, -⟩ | ⟨c, d, -, -, htail, hp⟩ | ⟨c, d, e, hl, -⟩
  · omega
  · omega
  · rw [htail] at h
    rw [hfirst] at hp
    exact ⟨c, d, htail, hp, h⟩
  · omega

/-- Where the bytes of a split pair stand, two sequences side by side stand for it. -/
theorem exists_pair {run : List Sequence} (h : SplitsPair (run.flatMap Sequence.bytes)) :
    ∃ front s s' back, run = front ++ s :: s' :: back ∧ IsPair s.codePoint s'.codePoint := by
  obtain ⟨a, b, c, ha, hc, hinfix⟩ := h
  simp only [UInt8.le_iff_toNat_le, UInt8.lt_iff_toNat_lt, UInt8.reduceToNat] at ha hc
  obtain ⟨front, s, back, rfl, hprefix⟩ := exists_sequence_of_infix (by decide) hinfix
  obtain ⟨a', b', htail, hp, hbehind⟩ := Sequence.surrogate_tail hprefix
  obtain ⟨rfl, hbehind'⟩ := List.cons_prefix_cons.1 hbehind
  obtain ⟨-, hrest⟩ := List.cons_prefix_cons.1 hbehind'
  cases back with
  | nil => simp at hrest
  | cons s' back =>
    rw [List.flatMap_cons] at hrest
    obtain ⟨c', d, htail', hq, hbehind''⟩ := Sequence.surrogate_tail hrest
    obtain ⟨rfl, -⟩ := List.cons_prefix_cons.1 hbehind''
    have hc' := s'.isContinuation_of_mem (c := c) (by simp [htail'])
    exact ⟨front, s, s', back, rfl, by omega, by omega⟩

/-! ## What is written -/

/-- What is written for code points is a run of sequences. -/
theorem exists_run {points : List Nat} (h : ∀ p ∈ points, p < 0x110000) :
    ∃ run : List Sequence, run.map Sequence.codePoint = points ∧
      ∀ s ∈ run, s.bytes = encodeCodePoint s.codePoint := by
  induction points with
  | nil => exact ⟨[], rfl, nofun⟩
  | cons p points ih =>
    obtain ⟨run, rfl, hrun⟩ := ih fun q hq => h q (List.mem_cons_of_mem p hq)
    obtain ⟨s, hbytes, rfl⟩ := exists_sequence (h p List.mem_cons_self)
    exact ⟨s :: run, rfl, List.forall_mem_cons.2 ⟨hbytes, hrun⟩⟩

theorem flatMap_bytes {run : List Sequence}
    (h : ∀ s ∈ run, s.bytes = encodeCodePoint s.codePoint) :
    run.flatMap Sequence.bytes = (run.map Sequence.codePoint).flatMap encodeCodePoint := by
  rw [List.flatMap_map]
  exact List.flatMap_congr h

/-- No sequence that is too long is written. -/
theorem not_overlong_encode (t : Text) : ¬Overlong (encode t) := by
  intro h
  obtain ⟨run, hpoints, hrun⟩ := exists_run fun p (hp : p ∈ t.codePoints) => codePoint_lt hp
  rw [encode, ← hpoints, ← flatMap_bytes hrun] at h
  obtain ⟨s, hs, c, hc, hstarts⟩ := exists_overlong h
  obtain ⟨rest, hrest⟩ := List.head?_eq_some_iff.1 hc
  have hwritten := hrun s hs
  rw [Sequence.bytes, hrest] at hwritten
  rw [startsOverlong_encodeCodePoint s.inRange hwritten.symm] at hstarts
  cases hstarts

/-- No surrogate pair is written as two sequences. -/
theorem not_splitsPair_encode (t : Text) : ¬SplitsPair (encode t) := by
  intro h
  obtain ⟨run, hpoints, hrun⟩ := exists_run fun p (hp : p ∈ t.codePoints) => codePoint_lt hp
  rw [encode, ← hpoints, ← flatMap_bytes hrun] at h
  obtain ⟨front, s, s', back, rfl, hpair⟩ := exists_pair h
  have hchain := isChain_codePointsOfUnits t.units
  rw [← Text.codePoints, ← hpoints, List.map_append, List.map_cons, List.map_cons] at hchain
  exact (List.isChain_cons_cons.1 hchain.right_of_append).1 hpair

/-! ## What is read -/

/-- Bytes that are read without a replacement are a run of sequences. -/
theorem exists_run_of_decodeUnits {bytes : List UInt8} (h : replacement ∉ decodeUnits bytes) :
    ∃ run : List Sequence, bytes = run.flatMap Sequence.bytes := by
  fun_induction decodeUnits bytes with
  | case1 => exact ⟨[], rfl⟩
  | case2 b rest hlead ih => simp at h
  | case3 b rest lead hlead hshort => simp at h
  | case4 b rest lead hlead hlong hcont ih =>
    rw [List.mem_append, not_or] at h
    obtain ⟨run, hrun⟩ := ih h.2
    have hlength : (rest.take lead.tail).length = lead.tail := by
      rw [List.length_take]
      omega
    have hrange : join lead.bits (rest.take lead.tail) < 0x110000 := by
      by_contra hrange
      rw [unitsOfRead, if_neg (by omega)] at h
      simp at h
    refine ⟨⟨b, rest.take lead.tail, lead.bits, ?_, hcont, hrange⟩ :: run, ?_⟩
    · rw [hlead, hlength]
    · rw [List.flatMap_cons, ← hrun, Sequence.bytes, List.cons_append, List.take_append_drop]
  | case5 b rest lead hlead hlong hcont ih => simp at h

theorem decodeUnits_run (run : List Sequence) :
    decodeUnits (run.flatMap Sequence.bytes) =
      (run.map Sequence.codePoint).flatMap unitsOfCodePoint := by
  induction run with
  | nil => simp [decodeUnits]
  | cons s run ih =>
    rw [List.flatMap_cons, s.decodeUnits_append, ih, List.map_cons, List.flatMap_cons]

/-- The bytes of a sequence are among those of the run. -/
theorem infix_flatMap_bytes {run : List Sequence} {s : Sequence} (h : s ∈ run) :
    s.bytes <:+: run.flatMap Sequence.bytes := by
  obtain ⟨front, back, rfl⟩ := List.append_of_mem h
  rw [List.flatMap_append, List.flatMap_cons, ← List.append_assoc]
  exact List.infix_append _ _ _

theorem written_of_not_overlong {run : List Sequence}
    (h : ¬Overlong (run.flatMap Sequence.bytes)) {s : Sequence} (hs : s ∈ run) :
    s.bytes = encodeCodePoint s.codePoint := by
  refine (Sequence.encodeCodePoint_codePoint fun c hc => ?_).symm
  rw [← Bool.not_eq_true]
  intro hstarts
  obtain ⟨rest, hrest⟩ := List.head?_eq_some_iff.1 hc
  refine h ⟨s.first, c, hstarts, List.IsInfix.trans ?_ (infix_flatMap_bytes hs)⟩
  rw [Sequence.bytes, hrest]
  exact ⟨[], rest, rfl⟩

/-- The bytes of a surrogate, as they are written. -/
theorem Sequence.surrogate_bytes {s : Sequence} (hs : s.bytes = encodeCodePoint s.codePoint)
    (hp : 0xD800 ≤ s.codePoint ∧ s.codePoint < 0xE000) :
    ∃ c d, s.bytes = [0xED, c, d] ∧ (0x80 ≤ c.toNat ∧ c.toNat < 0xC0) ∧
      s.codePoint = (0xD * 0x40 + c.toNat % 0x40) * 0x40 + d.toNat % 0x40 := by
  have hlength : s.tail.length = 2 := by
    have h := congrArg List.length hs
    rw [encodeCodePoint, if_neg (by omega), if_neg (by omega), if_pos (by omega)] at h
    exact Nat.succ.inj h
  rcases s.cases with ⟨-, htail, -⟩ | ⟨c, -, -, htail, -⟩ | ⟨c, d, hl, hu, htail, hcode⟩ |
    ⟨c, d, e, -, -, htail, -⟩
  · simp [htail] at hlength
  · simp [htail] at hlength
  · have hc := s.isContinuation_of_mem (c := c) (by simp [htail])
    have hfirst : s.first.toNat = 0xED := by omega
    have hed : s.first = 0xED := UInt8.toNat_inj.1 hfirst
    rw [hfirst] at hcode
    exact ⟨c, d, by rw [bytes, hed, htail], hc, hcode⟩
  · simp [htail] at hlength

/-- Among bytes that split no pair, no two sequences side by side stand for one. -/
theorem isChain_of_not_splitsPair {run : List Sequence}
    (hrun : ∀ s ∈ run, s.bytes = encodeCodePoint s.codePoint)
    (h : ¬SplitsPair (run.flatMap Sequence.bytes)) :
    (run.map Sequence.codePoint).IsChain fun p q => ¬IsPair p q := by
  rw [List.isChain_map, List.isChain_iff_forall_rel_of_append_cons_cons]
  rintro s s' front back rfl ⟨hhigh, hlow⟩
  obtain ⟨a, b, hbytes, ha, hp⟩ := Sequence.surrogate_bytes (hrun s (by simp)) (by omega)
  obtain ⟨c, d, hbytes', hc, hq⟩ := Sequence.surrogate_bytes (hrun s' (by simp)) (by omega)
  refine h ⟨a, b, c, ?_, ?_, ?_⟩
  · simp only [UInt8.le_iff_toNat_le, UInt8.lt_iff_toNat_lt, UInt8.reduceToNat]
    omega
  · simp only [UInt8.le_iff_toNat_le, UInt8.reduceToNat]
    omega
  · refine ⟨front.flatMap Sequence.bytes, d :: back.flatMap Sequence.bytes, ?_⟩
    rw [List.flatMap_append, List.flatMap_cons, List.flatMap_cons, hbytes, hbytes']
    simp

/-- Bytes are read with a replacement, or else they are written again as they are exactly if no
sequence among them is too long and none splits a surrogate pair. -/
theorem encode_decode_iff (bytes : List UInt8) :
    replacement ∈ (decode bytes).units ∨
      (encode (decode bytes) = bytes ↔ ¬Overlong bytes ∧ ¬SplitsPair bytes) := by
  by_cases hread : replacement ∈ (decode bytes).units
  · exact Or.inl hread
  right
  constructor
  · intro h
    rw [← h]
    exact ⟨not_overlong_encode _, not_splitsPair_encode _⟩
  · rintro ⟨hlong, hsplit⟩
    obtain ⟨run, rfl⟩ := exists_run_of_decodeUnits hread
    have hrun := fun s (hs : s ∈ run) => written_of_not_overlong hlong hs
    have hlt : ∀ p ∈ run.map Sequence.codePoint, p < 0x110000 := by
      intro p hp
      obtain ⟨s, -, rfl⟩ := List.mem_map.1 hp
      exact s.inRange
    have hchain := isChain_of_not_splitsPair hrun hsplit
    calc encode (decode (run.flatMap Sequence.bytes))
        = (codePointsOfUnits (decodeUnits (run.flatMap Sequence.bytes))).flatMap
            encodeCodePoint := rfl
      _ = (run.map Sequence.codePoint).flatMap encodeCodePoint := by
        rw [decodeUnits_run, codePointsOfUnits_flatMap hlt hchain]
      _ = run.flatMap Sequence.bytes := (flatMap_bytes hrun).symm

/-- Three bytes for the zero character, and a surrogate pair in six bytes: both are read as if they
had been written, and are written otherwise. -/
theorem other_bytes_read_alike :
    ¬(replacement ∈ (decode [0xE0, 0x80, 0x80]).units ∨
        encode (decode [0xE0, 0x80, 0x80]) = [0xE0, 0x80, 0x80]) ∧
      ¬(replacement ∈ (decode [0xED, 0xA0, 0x80, 0xED, 0xB0, 0x80]).units ∨
        encode (decode [0xED, 0xA0, 0x80, 0xED, 0xB0, 0x80]) =
          [0xED, 0xA0, 0x80, 0xED, 0xB0, 0x80]) := by
  decide +kernel

end Ecma.Wtf8
