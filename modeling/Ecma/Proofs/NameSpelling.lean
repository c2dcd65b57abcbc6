import Ecma.Proofs.Elements
import Ecma.Proofs.Whitespace

/-!
# The spellings of a name

Each character of a name can be written as it is or by its number, in an escape or two, and a name
has as many spellings as there are ways to choose: `NameSpelling`. All of them are read as the same
name (`NameSpelling.readName_append`), and so they are the same token: what the name is, a literal,
a keyword or an identifier, is decided by its characters (`WordKind`).
-/

namespace Ecma

/-! ## Spellings -/

/-- Four hexadecimal digits for a unit. -/
structure IsUnitNumeral (ds : List Char) (u : UInt16) : Prop where
  length_eq : ds.length = 4
  areDigits : AreDigits 16 ds
  value_eq : numeralValue 16 ds = u.toNat

/-- The ways to write a character in a name: as it is; as an escape of its number, with four digits
or with any number of digits in braces; and, if it takes a surrogate pair, as the escapes of the two
units with four digits each. -/
inductive CharSpelling (c : Char) : List Char → Prop where
  | literal : CharSpelling c [c]
  | escape {body : List Char} (hbody : CodePointBody body c.toNat) :
      CharSpelling c ('\\' :: 'u' :: body)
  | pair {u v : UInt16} {high low : List Char} (hunits : unitsOfChar c = [u, v])
      (hhigh : IsUnitNumeral high u) (hlow : IsUnitNumeral low v) :
      CharSpelling c ('\\' :: 'u' :: high ++ '\\' :: 'u' :: low)

/-- The ways to write the characters of a name. -/
inductive NameSpelling : List Char → List Char → Prop where
  | nil : NameSpelling [] []
  | cons {c : Char} {piece name text : List Char} (hc : CharSpelling c piece)
      (h : NameSpelling name text) : NameSpelling (c :: name) (piece ++ text)

/-- A name does not go on with what follows it. -/
def EndsName (after : List Char) : Prop :=
  after.head?.any (fun c => c == '\\' || isIdentifierContinue c) = false

instance (after : List Char) : Decidable (EndsName after) :=
  inferInstanceAs (Decidable (after.head?.any _ = false))

/-- The token of a name: a literal for three words, a keyword for its text, and an identifier for
all others. -/
inductive WordKind : String → TokenKind → Prop where
  | isTrue : WordKind "true" (.boolean true)
  | isFalse : WordKind "false" (.boolean false)
  | isNull : WordKind "null" .null
  | keyword (k : Keyword) : WordKind k.text (.keyword k)
  | identifier {name : String} (hliteral : name ∉ ["true", "false", "null"])
      (hkeyword : ∀ k : Keyword, k.text ≠ name) : WordKind name (.identifier name)

/-! ## Reading spellings -/

theorem identifierChar?_toNat {atStart : Bool} {c : Char} (h : isIdentifierPart atStart c = true) :
    identifierChar? atStart c.toNat = some c := by
  have hlt := toNat_lt c
  have hrange : ¬0x10FFFF < c.toNat := by omega
  simp [identifierChar?, isSurrogate_toNat, hrange, Char.ofNat_toNat, h]

theorem isUnitOf_toNat (p : UInt16 → Bool) (u : UInt16) : isUnitOf p u.toNat = p u := by
  have hlt := u.toNat_lt
  have hle : u.toNat ≤ 0xFFFF := by omega
  simp [isUnitOf, hle]

/-- The number of a character is no half of a surrogate pair. -/
theorem isUnitOf_isHighSurrogate_toNat (c : Char) :
    isUnitOf isHighSurrogate c.toNat = false := by
  have hs := isSurrogate_toNat c
  simp only [isSurrogate, Bool.and_eq_false_iff, decide_eq_false_iff_not] at hs
  rw [isUnitOf, Bool.and_eq_false_iff, decide_eq_false_iff_not, or_iff_not_imp_left, not_not]
  intro hle
  rw [← Bool.not_eq_true, isHighSurrogate_eq, toNat_ofNat16 (by omega)]
  omega

/-- The two units of a character are a surrogate pair, which is joined to it. -/
theorem combineSurrogates_of_unitsOfChar {c : Char} {u v : UInt16} (h : unitsOfChar c = [u, v]) :
    isHighSurrogate u = true ∧ isLowSurrogate v = true ∧ combineSurrogates u v = c.toNat := by
  have hpoints := codePointsOfUnits_unitsOfChar c []
  rw [List.append_nil, h] at hpoints
  by_cases hpair : isHighSurrogate u = true ∧ isLowSurrogate v = true
  · rw [codePointsOfUnits_pair hpair.1 hpair.2] at hpoints
    exact ⟨hpair.1, hpair.2, (List.cons.inj hpoints).1⟩
  · simp [codePointsOfUnits, hpair] at hpoints

theorem IsUnitNumeral.readCodePoint_eq {ds : List Char} {u : UInt16} (h : IsUnitNumeral ds u)
    (after : List Char) : readCodePoint (ds ++ after) = .done u.toNat after := by
  have hbody := CodePointBody.four h.length_eq h.areDigits
  rw [h.value_eq] at hbody
  exact readCodePoint_eq_done_iff.2 ⟨ds, rfl, hbody⟩

theorem ne_backslash_of_part {atStart : Bool} {c : Char} (h : isIdentifierPart atStart c = true) :
    c ≠ '\\' := by
  rintro rfl
  cases atStart with
  | true => exact absurd h (by decide)
  | false => exact absurd h (by decide)

/-- However it is written, a character is read as the next one of the name. -/
theorem CharSpelling.readName_append {c : Char} {piece : List Char} (h : CharSpelling c piece)
    {atStart : Bool} (hc : isIdentifierPart atStart c = true) (after : List Char) :
    readName atStart (piece ++ after) = (readName false after).map (c :: ·) := by
  cases h with
  | literal => exact readName_part (ne_backslash_of_part hc) hc after
  | @escape body hbody =>
    have hread : readCodePoint (body ++ after) = .done c.toNat after :=
      readCodePoint_eq_done_iff.2 ⟨body, rfl, hbody⟩
    have hsingle := readPairedCodePoint_single hread (isUnitOf_isHighSurrogate_toNat c)
    exact readName_escape hsingle (identifierChar?_toNat hc)
  | @pair u v high low hunits hhigh hlow =>
    -- the reader looks behind the first half for the second one and joins the two
    obtain ⟨hu, hv, hcombine⟩ := combineSurrogates_of_unitsOfChar hunits
    have hpair := readPairedCodePoint_pair (hhigh.readCodePoint_eq _)
      ((isUnitOf_toNat _ u).trans hu) (hlow.readCodePoint_eq after) ((isUnitOf_toNat _ v).trans hv)
    rw [UInt16.ofNat_toNat, UInt16.ofNat_toNat, hcombine] at hpair
    simp only [List.cons_append, List.append_assoc]
    exact readName_escape hpair (identifierChar?_toNat hc)

namespace NameSpelling

/-- However its characters are written, the rest of a name is read as those characters. -/
theorem readName_append {name text after : List Char} (h : NameSpelling name text)
    (hname : ∀ c ∈ name, isIdentifierContinue c = true) (hafter : EndsName after) :
    readName false (text ++ after) = .done name after := by
  induction h with
  | nil => exact readName_of_head? hafter
  | @cons c piece name text hc _ ih =>
    obtain ⟨hpart, hname⟩ := List.forall_mem_cons.1 hname
    have hpart : isIdentifierPart false c = true := hpart
    rw [List.append_assoc, hc.readName_append hpart, ih hname]
    rfl

/-- However its characters are written, a name is read as those characters from its start on. -/
theorem readName_start {c : Char} {cs text after : List Char} (h : NameSpelling (c :: cs) text)
    (hstart : isIdentifierStart c = true) (hcs : ∀ d ∈ cs, isIdentifierContinue d = true)
    (hafter : EndsName after) : readName true (text ++ after) = .done (c :: cs) after := by
  cases h with
  | cons hc htext =>
    have hpart : isIdentifierPart true c = true := hstart
    rw [List.append_assoc, hc.readName_append hpart, htext.readName_append hcs hafter]
    rfl

/-- A name starts with its first character or with a backslash. -/
theorem exists_cons {c : Char} {cs text : List Char} (h : NameSpelling (c :: cs) text) :
    ∃ x xs, text = x :: xs ∧ (x = c ∨ x = '\\') := by
  cases h with
  | cons hc =>
    cases hc with
    | literal => exact ⟨c, _, rfl, Or.inl rfl⟩
    | escape => exact ⟨'\\', _, rfl, Or.inr rfl⟩
    | pair => exact ⟨'\\', _, rfl, Or.inr rfl⟩

/-- A name can be written without escapes. -/
theorem self (name : List Char) : NameSpelling name name := by
  induction name with
  | nil => exact .nil
  | cons c name ih => exact .cons .literal ih

end NameSpelling

/-! ## The token of a name -/

/-- A name is classified by its characters. -/
theorem wordKind_kindOfName (name : List Char) :
    WordKind (String.ofList name) (kindOfName name) := by
  unfold kindOfName
  dsimp only
  split
  · rename_i htrue
    exact htrue ▸ .isTrue
  rename_i htrue
  split
  · rename_i hfalse
    exact hfalse ▸ .isFalse
  rename_i hfalse
  split
  · rename_i hnull
    exact hnull ▸ .isNull
  rename_i hnull
  cases hfind : Keyword.ofText? (String.ofList name) with
  | some k =>
    have htext := List.find?_some (p := fun k : Keyword => k.text == String.ofList name) hfind
    exact eq_of_beq htext ▸ .keyword k
  | none =>
    refine .identifier (by simp [htrue, hfalse, hnull]) fun k htext => ?_
    exact List.find?_eq_none.1 hfind k k.mem_all (beq_iff_eq.2 htext)

/-- No identifier starts with a character that the scanner skips. -/
theorem isBlank_or_isLineTerminator_of_start {c : Char} (h : isIdentifierStart c = true) :
    (isBlank c || isLineTerminator c) = false := by
  -- the spaces are few enough to look each of them up in the table of identifier starts
  have hcodes : ∀ n ∈ 0x85 :: spaceCodes, isIdentifierStart (Char.ofNat n) = false := by
    simp only [isIdentifierStart, isXidStart, inRanges_eq]
    decide +kernel
  rw [isBlank_or_isLineTerminator, ← Bool.not_eq_true, Bool.or_eq_true, beq_iff_eq, isTrimmed_iff]
  intro hspace
  have hmem : c.toNat ∈ 0x85 :: spaceCodes := by
    rcases hspace with hspace | rfl
    · exact List.mem_cons_of_mem _ hspace
    · exact List.mem_cons_self
  have hclass := hcodes _ hmem
  rw [Char.ofNat_toNat, h] at hclass
  cases hclass

/-- No trivia starts where a name starts. -/
theorem triviaStart_of_nameStart {c : Char}
    (h : (c == '\\' || isIdentifierStart c) = true) (cs : List Char) (atStart lineStart : Bool) :
    triviaStart atStart lineStart (c :: cs) = .none := by
  rw [Bool.or_eq_true, beq_iff_eq] at h
  rcases h with rfl | h
  · rfl
  have hcomment : c ∉ commentStarts := by
    intro hmem
    have hmarks : commentStarts.any isIdentifierStart = false := by decide
    exact List.any_eq_false.1 hmarks c hmem h
  obtain ⟨hblank, hline⟩ := Bool.or_eq_false_iff.1 (isBlank_or_isLineTerminator_of_start h)
  rw [triviaStart_of_notMem hcomment, hblank, hline]
  rfl

/-- The token at the start of a name is what the characters of the name make it, and has all of the
text that spells them. -/
theorem Scanner.next_of_nameSpelling {c : Char} {cs text after : List Char}
    (htext : NameSpelling (c :: cs) text) (hstart : isIdentifierStart c = true)
    (hcs : ∀ d ∈ cs, isIdentifierContinue d = true) (hafter : EndsName after) {s : Scanner}
    (hrest : s.rest = text ++ after) (goal : Goal) :
    (s.next goal).1.kind = kindOfName (c :: cs) ∧ (s.next goal).1.raw = String.ofList text := by
  have hread := htext.readName_start hstart hcs hafter
  obtain ⟨x, xs, rfl, hx⟩ := htext.exists_cons
  have hfirst : (x == '\\' || isIdentifierStart x) = true := by
    rcases hx with rfl | rfl
    · rw [hstart, Bool.or_true]
    · rfl
  have hlex : lex s.strict goal s.nesting (x :: (xs ++ after)) =
      ⟨kindOfName (c :: cs), after, s.nesting⟩ := by
    rw [lex, if_pos hfirst, ← List.cons_append, hread]
    rfl
  rw [List.cons_append] at hrest
  obtain ⟨hkind, hraw⟩ := s.next_of_token hrest (triviaStart_of_nameStart hfirst _) goal
  rw [hlex] at hkind hraw
  exact ⟨hkind, hraw.trans (congrArg String.ofList (textBefore_append_left (x :: xs) after))⟩

/-- However the characters of a name are written, as long as the name does not go on behind them,
the token there is a literal, a keyword or an identifier by what the characters are, it has all of
their text, and it is the same as where they are written without escapes. -/
theorem name_token_of_spelling {c : Char} {cs text after : List Char}
    (hstart : isIdentifierStart c = true) (hcs : ∀ d ∈ cs, isIdentifierContinue d = true)
    (htext : NameSpelling (c :: cs) text) (hafter : EndsName after) {s : Scanner}
    (hrest : s.rest = text ++ after) (goal : Goal) :
    WordKind (String.ofList (c :: cs)) (s.next goal).1.kind ∧
      (s.next goal).1.raw = String.ofList text ∧
      ∀ (plain : Scanner) (goal' : Goal) (after' : List Char),
        plain.rest = c :: cs ++ after' → EndsName after' →
          (s.next goal).1.kind = (plain.next goal').1.kind := by
  obtain ⟨hkind, hraw⟩ := Scanner.next_of_nameSpelling htext hstart hcs hafter hrest goal
  refine ⟨hkind ▸ wordKind_kindOfName (c :: cs), hraw, fun plain goal' after' hplain hend => ?_⟩
  have hself := NameSpelling.self (c :: cs)
  exact hkind.trans (Scanner.next_of_nameSpelling hself hstart hcs hend hplain goal').1.symm

/-- A name with a character in each way: as a surrogate pair, as it is, with four digits and in
braces. -/
theorem name_token_of_spelling_mixed :
    let s := Scanner.ofString "\\uD835\\uDCB3a\\u0062\\u\x7b00063\x7d;" false
    WordKind "𝒳abc" (s.next .regExp).1.kind ∧
      (s.next .regExp).1.raw = "\\uD835\\uDCB3a\\u0062\\u\x7b00063\x7d" ∧
      (s.next .regExp).1.kind = ((Scanner.ofString "𝒳abc" true).next .divide).1.kind := by
  intro s
  have hhigh : IsUnitNumeral "D835".toList 0xD835 := ⟨by decide, by decide, by decide⟩
  have hlow : IsUnitNumeral "DCB3".toList 0xDCB3 := ⟨by decide, by decide, by decide⟩
  have hx : CharSpelling '𝒳' "\\uD835\\uDCB3".toList := .pair (by decide) hhigh hlow
  have hfour : CodePointBody "0062".toList 'b'.toNat := .four (by decide) (by decide)
  have hbraced : CodePointBody ('\x7b' :: "00063".toList ++ ['\x7d']) 'c'.toNat :=
    .braced (by decide) (by decide) (by decide)
  have htext : NameSpelling "𝒳abc".toList
      "\\uD835\\uDCB3a\\u0062\\u\x7b00063\x7d".toList :=
    .cons hx (.cons .literal (.cons (.escape hfour) (.cons (.escape hbraced) .nil)))
  have hrest : s.rest = "\\uD835\\uDCB3a\\u0062\\u\x7b00063\x7d".toList ++ [';'] := by decide
  have hstart : isIdentifierStart '𝒳' = true := by
    simp only [isIdentifierStart, isXidStart, inRanges_eq]
    decide +kernel
  have hcs : ['a', 'b', 'c'].all isIdentifierContinue = true := by decide
  have hafter : EndsName [';'] := by decide
  obtain ⟨hword, hraw, hplain⟩ :=
    name_token_of_spelling hstart (List.all_eq_true.1 hcs) htext hafter hrest .regExp
  exact ⟨hword, hraw, hplain _ .divide [] rfl rfl⟩

end Ecma
