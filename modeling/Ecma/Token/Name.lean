import Ecma.Token.Escape
import Ecma.Unicode.IdentifierContinue
import Ecma.Unicode.IdentifierStart

/-!
# Names

The characters of identifiers and keywords. A character may be written as a code point escape, which
is decoded before the name is classified.
-/

namespace Ecma

/-- Whether a character is an ASCII letter. -/
def isAsciiLetter (c : Char) : Bool := ('a' ≤ c && c ≤ 'z') || ('A' ≤ c && c ≤ 'Z')

/-- Whether a character may start an identifier. -/
def isIdentifierStart (c : Char) : Bool :=
  c == '_' || c == '$' || isAsciiLetter c || isXidStart c

/-- Whether a character may stand behind the first one of an identifier. -/
def isIdentifierContinue (c : Char) : Bool :=
  c == '_' || c == '$' || isAsciiLetter c || isDecimalDigit c || c == '\u200C' || c == '\u200D'
    || isXidContinue c

/-- Whether a character may stand in an identifier, at its start or behind it. -/
def isIdentifierPart (atStart : Bool) (c : Char) : Bool :=
  if atStart then isIdentifierStart c else isIdentifierContinue c

/-- The character of a code point that may stand in an identifier. -/
def identifierChar? (atStart : Bool) (codePoint : Nat) : Option Char :=
  if isSurrogate codePoint || 0x10FFFF < codePoint then none
  else
    let c := Char.ofNat codePoint
    if isIdentifierPart atStart c then some c else none

/-- The characters of a name, with escapes decoded. A backslash that is not followed by the letter
of a code point escape is refused together with the character behind it, whatever that is. -/
def readName (atStart : Bool) : Reader (List Char)
  | [] => .done [] []
  | c :: cs =>
    if c = '\\' then
      match cs with
      | 'u' :: body =>
        match _h : readPairedCodePoint body with
        | .refused complaint rest => .refused complaint rest
        | .done codePoint rest =>
          match identifierChar? atStart codePoint with
          | some d => (readName false rest).map (d :: ·)
          | none => .refused .identifierUnicodeEscape rest
      | _ => .refused .identifierEscape (cs.drop 1)
    else if isIdentifierPart atStart c then (readName false cs).map (c :: ·)
    else .done [] (c :: cs)
termination_by cs => cs.length
decreasing_by
  · have := (local_readPairedCodePoint body).length_le
    simp only [_h, Read.rest_done] at this
    simp only [List.length_cons]
    omega
  · simp

/-- A name consumes characters from the front only. -/
theorem local_readName (atStart : Bool) : Reader.Local (readName atStart) := by
  intro cs
  fun_induction readName atStart cs with
  | case1 => exact List.suffix_rfl
  | case2 atStart body complaint rest h =>
    have := local_readPairedCodePoint body
    rw [h] at this
    exact this.trans ((List.suffix_cons ..).trans (List.suffix_cons ..))
  | case3 atStart body codePoint rest h d hd ih =>
    have := local_readPairedCodePoint body
    rw [h, Read.rest_done] at this
    rw [Read.rest_map]
    exact ih.trans (this.trans ((List.suffix_cons ..).trans (List.suffix_cons ..)))
  | case4 atStart body codePoint rest h hd =>
    have := local_readPairedCodePoint body
    rw [h, Read.rest_done] at this
    exact this.trans ((List.suffix_cons ..).trans (List.suffix_cons ..))
  | case5 atStart cs hu => exact (List.drop_suffix 1 cs).trans (List.suffix_cons ..)
  | case6 atStart c cs hb hp ih =>
    rw [Read.rest_map]
    exact ih.trans (List.suffix_cons ..)
  | case7 => exact List.suffix_rfl

theorem readName_escape_eq (atStart : Bool) (body : List Char) :
    readName atStart ('\\' :: 'u' :: body) =
      match readPairedCodePoint body with
      | .refused complaint rest => .refused complaint rest
      | .done codePoint rest =>
        match identifierChar? atStart codePoint with
        | some d => (readName false rest).map (d :: ·)
        | none => .refused .identifierUnicodeEscape rest := by
  rw [readName.eq_def]
  simp only [if_true]
  split
  · rename_i hread
    rw [hread]
  · rename_i hread
    rw [hread]

theorem readName_of_ne {atStart : Bool} {c : Char} (hc : c ≠ '\\') (cs : List Char) :
    readName atStart (c :: cs) =
      if isIdentifierPart atStart c then (readName false cs).map (c :: ·)
      else .done [] (c :: cs) := by
  rw [readName.eq_def]
  exact if_neg hc

theorem readName_backslash {atStart : Bool} {cs : List Char} (hcs : cs.head? ≠ some 'u') :
    readName atStart ('\\' :: cs) = .refused .identifierEscape (cs.drop 1) := by
  rw [readName.eq_def]
  simp only [if_true]
  split
  · exact absurd rfl hcs
  · rfl

namespace Cursor

/-- The characters of a name, with escapes decoded. The character behind a backslash is moved over
like any other, be it a line terminator. This is `read_identifier`. -/
def readName (atStart : Bool) (k : Cursor) : Read (List Char) Cursor :=
  match _hrest : k.rest with
  | [] => .done [] k
  | c :: cs =>
    if c = '\\' then
      if cs.head? = some 'u' then
        match _h : k.advance.advance.readPairedCodePoint with
        | .refused complaint k' => .refused complaint k'
        | .done codePoint k' =>
          match identifierChar? atStart codePoint with
          | some d => (k'.readName false).map (d :: ·)
          | none => .refused .identifierUnicodeEscape k'
      else .refused .identifierEscape k.advance.advance
    else if isIdentifierPart atStart c then (k.advance.readName false).map (c :: ·)
    else .done [] k
termination_by k.rest.length
decreasing_by
  · have hsuffix := local_readPairedCodePoint k.advance.advance.rest
    have hread := mapRest_read local_readPairedCodePoint k.advance.advance
    rw [← readPairedCodePoint_eq, _h] at hread
    rw [← hread, Read.mapRest_done, Read.rest_done, rest_advance_eq, rest_advance _hrest] at hsuffix
    rw [_hrest]
    exact Nat.lt_succ_of_le (hsuffix.trans (List.drop_suffix 1 cs)).length_le
  · rw [rest_advance _hrest, _hrest]
    exact Nat.lt_succ_self _

/-- A name moves a cursor over what is consumed, character by character. -/
theorem readName_eq (atStart : Bool) (k : Cursor) :
    k.readName atStart = k.read (Ecma.readName atStart) := by
  -- The escape behind a backslash is read from where that stands.
  have hescape : ∀ {k : Cursor} {body : List Char}, k.rest = '\\' :: 'u' :: body →
      k.advance.advance.readPairedCodePoint =
        (Ecma.readPairedCodePoint body).mapRest k.advanceTo := fun {k body} h => by
    rw [readPairedCodePoint_eq, advance_advance h,
      read_advanceTo local_readPairedCodePoint (h ▸ ⟨['\\', 'u'], rfl⟩)]
  fun_induction readName atStart k with
  | case1 atStart k h => rw [read, h, Ecma.readName, Read.mapRest_done, ← h, advanceTo_self]
  | case2 atStart k cs hu complaint k' hread h =>
    obtain ⟨body, rfl⟩ := List.head?_eq_some_iff.1 hu
    rw [hescape h, Read.mapRest_eq_refused] at hread
    obtain ⟨rest, hread, rfl⟩ := hread
    rw [read, h, readName_escape_eq, hread]
    rfl
  | case3 atStart k cs hu codePoint k' hread d hd h ih =>
    obtain ⟨body, rfl⟩ := List.head?_eq_some_iff.1 hu
    rw [hescape h, Read.mapRest_eq_done] at hread
    obtain ⟨rest, hread, rfl⟩ := hread
    have hsuffix := local_readPairedCodePoint body
    rw [hread, Read.rest_done] at hsuffix
    rw [ih, read_advanceTo (local_readName false) (h ▸ hsuffix.trans ⟨['\\', 'u'], rfl⟩), read, h,
      readName_escape_eq, hread]
    simp only [hd, Read.mapRest_map]
  | case4 atStart k cs hu codePoint k' hread hd h =>
    obtain ⟨body, rfl⟩ := List.head?_eq_some_iff.1 hu
    rw [hescape h, Read.mapRest_eq_done] at hread
    obtain ⟨rest, hread, rfl⟩ := hread
    rw [read, h, readName_escape_eq, hread]
    simp only [hd, Read.mapRest_refused]
  | case5 atStart k cs hu h =>
    rw [read, h, readName_backslash hu, Read.mapRest_refused]
    cases cs with
    | nil =>
      rw [advance, rest_advance h, List.drop_nil, ← advanceTo_tail h]
    | cons d cs => rw [advance_advance h, List.drop_one, List.tail_cons]
  | case6 atStart k c cs h hb hpart ih =>
    rw [ih, ← advanceTo_tail h,
      read_advanceTo (local_readName false) (h ▸ List.suffix_cons c cs), read, h,
      readName_of_ne hb, if_pos hpart, Read.mapRest_map]
  | case7 atStart k c cs h hb hpart =>
    rw [read, h, readName_of_ne hb, if_neg hpart, Read.mapRest_done, ← h, advanceTo_self]

end Cursor

end Ecma
