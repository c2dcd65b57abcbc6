import Ecma.Proofs.Canonical

/-!
# ASCII characters among bytes

How the reader treats the bytes below `0x80` of an input that may be malformed. Bytes that belong to
no sequence are skipped one by one, so no ASCII byte is lost with them; but from the first byte on
that announces more bytes than follow it, nothing is read any more (`unfinished`). And an ASCII
character that was written in three or four bytes is read as one that was not there
(`ForgesAscii`). Each step of the reader keeps what `Conveys` says of the rest.
-/

namespace Ecma.Wtf8

/-- The ASCII characters among bytes. -/
def asciiBytes (bytes : List UInt8) : List Nat := (bytes.map UInt8.toNat).filter (· < 0x80)

/-- The ASCII characters among units. -/
def asciiUnits (units : List UInt16) : List Nat := (units.map UInt16.toNat).filter (· < 0x80)

/-- The bytes from the first one on that announces more bytes than follow it. -/
def unfinished : List UInt8 → List UInt8
  | [] => []
  | b :: rest => if (lead? b).any (rest.length < ·.tail) then b :: rest else unfinished rest

/-- An ASCII character stands among the bytes in a sequence of more than one byte: three bytes of
which the first is `0xE0` or four of which it is `0xF0`, with too many zero bits behind it. -/
def ForgesAscii (bytes : List UInt8) : Prop :=
  ∃ s : Sequence, s.tail ≠ [] ∧ s.codePoint < 0x80 ∧ s.bytes <:+: bytes

theorem asciiBytes_append (a b : List UInt8) :
    asciiBytes (a ++ b) = asciiBytes a ++ asciiBytes b := by
  rw [asciiBytes, List.map_append, List.filter_append]
  rfl

theorem asciiUnits_append (a b : List UInt16) :
    asciiUnits (a ++ b) = asciiUnits a ++ asciiUnits b := by
  rw [asciiUnits, List.map_append, List.filter_append]
  rfl

/-! ## Bytes that are no ASCII characters -/

theorem asciiBytes_eq_nil {bytes : List UInt8} (h : ∀ b ∈ bytes, 0x80 ≤ b.toNat) :
    asciiBytes bytes = [] := by
  rw [asciiBytes, List.filter_eq_nil_iff]
  intro n hn
  obtain ⟨b, hb, rfl⟩ := List.mem_map.1 hn
  have hlow := h b hb
  simp only [decide_eq_true_eq]
  omega

theorem asciiUnits_unitsOfRead (p : Nat) :
    asciiUnits (unitsOfRead p) = if p < 0x80 then [p] else [] := by
  unfold unitsOfRead unitsOfCodePoint
  by_cases hrange : p ≤ 0x10FFFF
  · rw [if_pos hrange]
    by_cases hplane : p < 0x10000
    · rw [if_pos hplane, asciiUnits, List.map_singleton, toNat_ofNat16 hplane,
        List.filter_singleton]
      simp
    · rw [if_neg hplane, if_neg (by omega), asciiUnits, List.map_cons, List.map_singleton,
        toNat_ofNat16 (by omega), toNat_ofNat16 (by omega), List.filter_eq_nil_iff]
      intro n hn
      simp only [List.mem_cons, List.not_mem_nil, or_false, decide_eq_true_eq] at hn ⊢
      omega
  · rw [if_neg hrange, if_neg (by omega)]
    rfl

theorem lead?_eq_none {b : UInt8} (h : isContinuation b = true) : lead? b = none := by
  cases hlead : lead? b with
  | none => rfl
  | some lead =>
    rw [isContinuation_iff] at h
    have hcases := lead?_cases hlead
    omega

/-! ## Unfinished rests -/

theorem unfinished_cons {b : UInt8} {rest : List UInt8}
    (h : ∀ lead ∈ lead? b, lead.tail ≤ rest.length) : unfinished (b :: rest) = unfinished rest := by
  rw [unfinished, if_neg]
  rw [Option.any_eq_true]
  rintro ⟨lead, hlead, hshort⟩
  have hlong := h lead hlead
  simp only [decide_eq_true_eq] at hshort
  omega

theorem unfinished_append {run : List UInt8} (h : run.all isContinuation = true)
    (rest : List UInt8) : unfinished (run ++ rest) = unfinished rest := by
  induction run with
  | nil => rfl
  | cons b run ih =>
    rw [List.all_cons, Bool.and_eq_true] at h
    rw [List.cons_append, unfinished_cons, ih h.2]
    simp [lead?_eq_none h.1]

/-! ## Sequences at the front -/

/-- A sequence at the front of the bytes is the one that the first byte announces. -/
theorem Sequence.eq_announced {s : Sequence} {b : UInt8} {rest : List UInt8} {lead : Lead}
    (hlead : lead? b = some lead) (h : s.bytes <+: b :: rest) :
    lead.tail ≤ rest.length ∧ s.tail = rest.take lead.tail ∧ s.bits = lead.bits := by
  rw [bytes] at h
  obtain ⟨rfl, htail⟩ := List.cons_prefix_cons.1 h
  have hfirst := s.isFirst
  rw [hlead] at hfirst
  obtain rfl := Option.some.inj hfirst
  exact ⟨htail.length_le, List.prefix_iff_eq_take.1 htail, rfl⟩

/-- An ASCII character in more than one byte takes at least three. -/
theorem Sequence.two_le_length {s : Sequence} (hne : s.tail ≠ []) (hp : s.codePoint < 0x80) :
    2 ≤ s.tail.length := by
  rcases s.cases with ⟨-, htail, -⟩ | ⟨c, hl, -, -, hcode⟩ | ⟨c, d, -, -, htail, -⟩ |
    ⟨c, d, e, -, -, htail, -⟩
  · exact absurd htail hne
  · omega
  · simp [htail]
  · simp [htail]

/-- Unless one starts with the first byte, forged characters are behind it. -/
theorem forgesAscii_cons {b : UInt8} {rest : List UInt8}
    (h : ∀ s : Sequence, s.tail ≠ [] → s.codePoint < 0x80 → ¬s.bytes <+: b :: rest) :
    ForgesAscii (b :: rest) ↔ ForgesAscii rest := by
  constructor
  · rintro ⟨s, hne, hp, hinfix⟩
    rcases List.infix_cons_iff.1 hinfix with hprefix | hinfix
    · exact absurd hprefix (h s hne hp)
    · exact ⟨s, hne, hp, hinfix⟩
  · rintro ⟨s, hne, hp, hinfix⟩
    exact ⟨s, hne, hp, hinfix.trans (List.suffix_cons b rest).isInfix⟩

/-- No sequence starts among continuation bytes. -/
theorem forgesAscii_append {run rest : List UInt8} (h : run.all isContinuation = true) :
    ForgesAscii (run ++ rest) ↔ ForgesAscii rest := by
  constructor
  · rintro ⟨s, hne, hp, hinfix⟩
    have hfirst : isContinuation s.first = false := by
      rw [← Bool.not_eq_true]
      intro hcont
      have hnone := lead?_eq_none hcont
      rw [s.isFirst] at hnone
      cases hnone
    exact ⟨s, hne, hp, infix_of_all hfirst h hinfix⟩
  · rintro ⟨s, hne, hp, hinfix⟩
    exact ⟨s, hne, hp, hinfix.trans (List.suffix_append run rest).isInfix⟩

/-! ## Steps of the reader -/

/-- Units hold the ASCII characters of the bytes before the unfinished rest, and no other ones
exactly if the bytes forge none. -/
def Conveys (bytes : List UInt8) (units : List UInt16) : Prop :=
  ∃ body, bytes = body ++ unfinished bytes ∧ (asciiBytes body).Sublist (asciiUnits units) ∧
    (asciiUnits units = asciiBytes body ↔ ¬ForgesAscii bytes)

/-- The reader passes over bytes and gives the same ASCII characters. -/
theorem Conveys.keep {rest : List UInt8} {units : List UInt16} (h : Conveys rest units)
    (front : List UInt8) (piece : List UInt16)
    (hrest : unfinished (front ++ rest) = unfinished rest)
    (hascii : asciiUnits piece = asciiBytes front)
    (hforges : ForgesAscii (front ++ rest) ↔ ForgesAscii rest) :
    Conveys (front ++ rest) (piece ++ units) := by
  obtain ⟨body, hbody, hsub, hexact⟩ := h
  refine ⟨front ++ body, ?_, ?_, ?_⟩
  · rw [hrest, List.append_assoc, ← hbody]
  · rw [asciiBytes_append, asciiUnits_append, hascii]
    exact (List.Sublist.refl _).append hsub
  · rw [asciiBytes_append, asciiUnits_append, hascii, List.append_right_inj, hexact, hforges]

/-- The reader passes over bytes without ASCII characters and gives one. -/
theorem Conveys.forge {rest : List UInt8} {units : List UInt16} (h : Conveys rest units)
    (front : List UInt8) (piece : List UInt16)
    (hrest : unfinished (front ++ rest) = unfinished rest) (hnone : asciiBytes front = [])
    (hsome : asciiUnits piece ≠ []) (hforges : ForgesAscii (front ++ rest)) :
    Conveys (front ++ rest) (piece ++ units) := by
  obtain ⟨body, hbody, hsub, -⟩ := h
  refine ⟨front ++ body, ?_, ?_, ?_⟩
  · rw [hrest, List.append_assoc, ← hbody]
  · rw [asciiBytes_append, asciiUnits_append, hnone]
    exact hsub.trans (List.sublist_append_right _ _)
  · refine iff_of_false (fun heq => ?_) (not_not_intro hforges)
    have hlength := congrArg List.length heq
    have hpos := List.length_pos_iff.2 hsome
    have hle := hsub.length_le
    rw [asciiBytes_append, asciiUnits_append, hnone, List.nil_append, List.length_append] at hlength
    omega

/-- A sequence that runs past the end of the bytes is too short to hide a forged character. -/
theorem not_forgesAscii_of_short {b : UInt8} {rest : List UInt8} {lead : Lead}
    (hlead : lead? b = some lead) (hshort : rest.length < lead.tail) :
    ¬ForgesAscii (b :: rest) := by
  rintro ⟨s, hne, hp, hinfix⟩
  have hlong := Sequence.two_le_length hne hp
  have hthree : lead.tail ≤ 3 := by
    rcases lead?_cases hlead with ⟨-, rfl⟩ | ⟨-, -, rfl⟩ | ⟨-, -, rfl⟩ | ⟨-, -, rfl⟩
    all_goals simp
  have hall : s.bytes = b :: rest := by
    refine hinfix.sublist.eq_of_length_le ?_
    rw [Sequence.bytes, List.length_cons, List.length_cons]
    omega
  have hprefix : s.bytes <+: b :: rest := ⟨[], by rw [List.append_nil, hall]⟩
  have hfits := (Sequence.eq_announced hlead hprefix).1
  omega

/-- A first byte behind which too few bytes continue starts no sequence. -/
theorem Sequence.not_prefix_of_broken {b : UInt8} {rest : List UInt8} {lead : Lead}
    (hlead : lead? b = some lead) (h : ¬(rest.take lead.tail).all isContinuation = true)
    (s : Sequence) : ¬s.bytes <+: b :: rest := by
  intro hprefix
  have htail := (eq_announced hlead hprefix).2.1
  rw [← htail] at h
  exact h s.continues

/-- Every byte of a longer sequence is above ASCII. -/
theorem asciiBytes_sequence {b : UInt8} {tail : List UInt8} {lead : Lead}
    (hlead : lead? b = some lead) (hne : lead.tail ≠ 0) (hcont : tail.all isContinuation = true) :
    asciiBytes (b :: tail) = [] := by
  refine asciiBytes_eq_nil (List.forall_mem_cons.2 ⟨?_, fun c hc => ?_⟩)
  · rcases lead?_cases hlead with ⟨-, rfl⟩ | ⟨hl, -⟩ | ⟨hl, -⟩ | ⟨hl, -⟩
    · exact absurd rfl hne
    all_goals omega
  · exact (isContinuation_iff.1 (List.all_eq_true.1 hcont c hc)).1

/-- The step over a whole sequence. -/
theorem Conveys.sequence {b : UInt8} {tail rest : List UInt8} {units : List UInt16} {lead : Lead}
    (h : Conveys rest units) (hlead : lead? b = some lead) (hlength : tail.length = lead.tail)
    (hcont : tail.all isContinuation = true) :
    Conveys (b :: (tail ++ rest)) (unitsOfRead (join lead.bits tail) ++ units) := by
  have hrest : unfinished (b :: (tail ++ rest)) = unfinished rest := by
    rw [unfinished_cons, unfinished_append hcont]
    intro lead' hlead'
    rw [hlead] at hlead'
    obtain rfl := Option.some.inj hlead'
    rw [List.length_append]
    omega
  by_cases hnil : tail = []
  · -- one byte is an ASCII character and starts no longer sequence
    subst hnil
    have hzero : lead.tail = 0 := hlength.symm
    refine h.keep [b] _ hrest ?_ (forgesAscii_cons fun s hne _ hprefix => ?_)
    · rcases lead?_cases hlead with ⟨hlow, rfl⟩ | ⟨-, -, rfl⟩ | ⟨-, -, rfl⟩ | ⟨-, -, rfl⟩
      · rw [join_nil, asciiUnits_unitsOfRead, if_pos hlow]
        simp [asciiBytes, hlow]
      all_goals cases hzero
    · have htail := (Sequence.eq_announced hlead hprefix).2.1
      rw [hzero, List.take_zero] at htail
      exact hne htail
  have hne : lead.tail ≠ 0 := by
    rw [← hlength]
    exact fun hzero => hnil (List.length_eq_zero_iff.1 hzero)
  have hnone := asciiBytes_sequence hlead hne hcont
  by_cases hlow : join lead.bits tail < 0x80
  · refine h.forge (b :: tail) _ hrest hnone ?_ ?_
    · rw [asciiUnits_unitsOfRead, if_pos hlow]
      exact List.cons_ne_nil _ _
    · refine ⟨⟨b, tail, lead.bits, ?_, hcont, by omega⟩, hnil, hlow, ?_⟩
      · rw [hlead, hlength]
      · exact (List.prefix_append (b :: tail) rest).isInfix
  · refine h.keep (b :: tail) _ hrest ?_ ?_
    · rw [asciiUnits_unitsOfRead, if_neg hlow, hnone]
    · rw [List.cons_append, forgesAscii_cons, forgesAscii_append hcont]
      intro s _ hp hprefix
      obtain ⟨-, htail, hbits⟩ := Sequence.eq_announced hlead hprefix
      rw [← hlength, List.take_left] at htail
      rw [Sequence.codePoint, htail, hbits] at hp
      exact hlow hp

theorem conveys_decodeUnits (bytes : List UInt8) : Conveys bytes (decodeUnits bytes) := by
  fun_induction decodeUnits bytes with
  | case1 =>
    refine ⟨[], rfl, .refl _, iff_of_true rfl ?_⟩
    rintro ⟨s, -, -, hinfix⟩
    simp [Sequence.bytes] at hinfix
  | case2 b rest hlead ih =>
    have hb : 0x80 ≤ b.toNat := by
      by_contra hlow
      rw [lead?, if_pos (UInt8.lt_iff_toNat_lt.2 (by simpa using hlow))] at hlead
      cases hlead
    refine ih.keep [b] [replacement] (unfinished_cons ?_) ?_ ?_
    · simp [hlead]
    · rw [asciiBytes_eq_nil (by simpa using hb)]
      rfl
    · refine forgesAscii_cons fun s _ _ hprefix => ?_
      obtain ⟨rfl, -⟩ := List.cons_prefix_cons.1 hprefix
      rw [s.isFirst] at hlead
      cases hlead
  | case3 b rest lead hlead hshort =>
    have hall : unfinished (b :: rest) = b :: rest := by
      rw [unfinished, hlead, if_pos (by simpa using hshort)]
    refine ⟨[], hall.symm, List.nil_sublist _, ?_⟩
    exact iff_of_true rfl (not_forgesAscii_of_short hlead hshort)
  | case4 b rest lead hlead hlong hcont ih =>
    have hlength : (rest.take lead.tail).length = lead.tail := by
      rw [List.length_take]
      omega
    have hstep := ih.sequence hlead hlength hcont
    rwa [List.take_append_drop] at hstep
  | case5 b rest lead hlead hlong hcont ih =>
    have hne : lead.tail ≠ 0 := by
      intro hzero
      rw [hzero] at hcont
      exact hcont rfl
    refine ih.keep [b] [replacement] (unfinished_cons ?_) ?_ ?_
    · intro lead' hlead'
      rw [hlead] at hlead'
      obtain rfl := Option.some.inj hlead'
      exact Nat.le_of_not_lt hlong
    · rw [asciiBytes_sequence hlead hne List.all_nil]
      rfl
    · exact forgesAscii_cons fun s _ _ => Sequence.not_prefix_of_broken hlead hcont s

/-- The ASCII characters before the unfinished rest of the bytes are all read, in order, and no
others are read exactly if the bytes forge none. Unless they do, all ASCII characters of the bytes
are read exactly if none stands in the unfinished rest. -/
theorem asciiUnits_decode (bytes : List UInt8) :
    ∃ body, bytes = body ++ unfinished bytes ∧
      (asciiBytes body).Sublist (asciiUnits (decode bytes).units) ∧
      (asciiUnits (decode bytes).units = asciiBytes body ↔ ¬ForgesAscii bytes) ∧
      (ForgesAscii bytes ∨
        (asciiUnits (decode bytes).units = asciiBytes bytes ↔
          asciiBytes (unfinished bytes) = [])) := by
  obtain ⟨body, hbody, hsub, hexact⟩ := conveys_decodeUnits bytes
  refine ⟨body, hbody, hsub, hexact, or_iff_not_imp_left.2 fun hforges => ?_⟩
  have hall : asciiBytes bytes = asciiBytes body ++ asciiBytes (unfinished bytes) := by
    rw [← asciiBytes_append, ← hbody]
  rw [decode, hexact.2 hforges, hall]
  exact List.self_eq_append_right

/-- An ASCII byte behind a byte that announces two more is lost at the end of the bytes, and three
bytes are read as an ASCII character that is none of them. -/
theorem ascii_lost_and_forged :
    asciiUnits (decode [0xE2, 0x41]).units ≠ asciiBytes [0xE2, 0x41] ∧
      asciiUnits (decode [0xE0, 0x81, 0x81]).units ≠ asciiBytes [0xE0, 0x81, 0x81] := by
  decide +kernel

end Ecma.Wtf8
