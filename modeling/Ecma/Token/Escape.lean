import Ecma.Number.Digits
import Ecma.Text
import Ecma.Token.Cursor

/-!
# Escape sequences

What follows a backslash in string literals, templates and identifiers. A code point escape for a
high surrogate looks ahead for the escape of a low one and joins the two; if none follows, nothing
of what was looked at is consumed.
-/

namespace Ecma

/-- Where an escape stands; this decides which of the old forms are allowed. -/
inductive EscapeContext where
  /-- In a template, strict or not. -/
  | template
  /-- In a string literal of strict code. -/
  | strict
  /-- In a string literal of sloppy code. -/
  | sloppy
deriving DecidableEq, Repr

namespace EscapeContext

/-- The complaint about an octal escape, where it is not allowed. -/
def octalComplaint? : EscapeContext → Option Complaint
  | template => some .octalEscapeInTemplate
  | strict => some .octalEscapeInStrict
  | sloppy => none

/-- The complaint about an escaped eight or nine, where it is not allowed. -/
def decimalComplaint? (digit : Char) : EscapeContext → Option Complaint
  | template => some (.decimalEscapeInTemplate digit)
  | strict => some (.decimalEscapeInStrict digit)
  | sloppy => none

end EscapeContext

/-! ## Code point escapes -/

/-- Exactly `count` hexadecimal digits, read on from `value`. -/
def readHexDigits (complaint : Complaint) : Nat → Nat → Reader Nat
  | 0, value => fun cs => .done value cs
  | count + 1, value => fun
    | [] => .refused complaint []
    | c :: cs =>
      match digitValue? 16 c with
      | some d => readHexDigits complaint count (value * 16 + d) cs
      | none => .refused complaint (c :: cs)

/-- Hexadecimal digits up to a closing brace, at least one of them, for a code point. The number of
digits is only compared with zero; it is a plain number where `read_unicode_escape` counts in 32
bits. -/
def readBracedDigits (value count : Nat) : Reader Nat
  | [] => .refused .unterminatedUnicodeEscape []
  | c :: cs =>
    if c = '}' then
      if count = 0 then .refused .unicodeEscape cs else .done value cs
    else
      match digitValue? 16 c with
      | none => .refused .unicodeEscape (c :: cs)
      | some d =>
        if 0x10FFFF < value * 16 + d then .refused .codePointOutOfRange (c :: cs)
        else readBracedDigits (value * 16 + d) (count + 1) cs

/-- The body of a code point escape: four digits, or digits in braces. This is
`read_unicode_escape`. -/
def readCodePoint : Reader Nat
  | '{' :: cs => readBracedDigits 0 0 cs
  | cs => readHexDigits .unicodeEscape 4 0 cs

/-- Whether a number is the value of a unit of the class. -/
def isUnitOf (p : UInt16 → Bool) (codePoint : Nat) : Bool :=
  codePoint ≤ 0xFFFF && p (UInt16.ofNat codePoint)

/-- The body of a code point escape, joined with a second escape if the two form a surrogate pair.
-/
def readPairedCodePoint : Reader Nat := fun cs =>
  match readCodePoint cs with
  | .refused c rest => .refused c rest
  | .done high rest =>
    if isUnitOf isHighSurrogate high then
      match rest with
      | '\\' :: 'u' :: second =>
        match readCodePoint second with
        | .done low rest' =>
          if isUnitOf isLowSurrogate low then
            .done (combineSurrogates (UInt16.ofNat high) (UInt16.ofNat low)) rest'
          else
            .done high rest
        | .refused _ _ => .done high rest
      | _ => .done high rest
    else
      .done high rest

/-! ## Octal escapes -/

/-- At most `count` more octal digits, read on from `value`. -/
def readOctalDigits : Nat → Nat → List Char → Nat × List Char
  | 0, value, cs => (value, cs)
  | _ + 1, value, [] => (value, [])
  | count + 1, value, c :: cs =>
    match digitValue? 8 c with
    | some d => readOctalDigits count (value * 8 + d) cs
    | none => (value, c :: cs)

/-- An escape that starts with an octal digit: a zero that no digit follows is the zero unit, and
everything else is an octal escape of at most `377`. -/
def readOctalEscape (context : EscapeContext) (first : Nat) : Reader (List UInt16) := fun cs =>
  if first = 0 ∧ !cs.head?.any isDecimalDigit then .done [0] cs
  else
    match context.octalComplaint? with
    | some complaint => .refused complaint cs
    | none =>
      let (value, rest) := readOctalDigits (if first ≤ 3 then 2 else 1) first cs
      .done [UInt16.ofNat value] rest

/-! ## All escapes -/

/-- The unit of a one-letter escape. -/
def letterEscape? (c : Char) : Option UInt16 :=
  if c = 'n' then some 0x0A
  else if c = 'r' then some 0x0D
  else if c = 't' then some 0x09
  else if c = 'b' then some 0x08
  else if c = 'f' then some 0x0C
  else if c = 'v' then some 0x0B
  else none

/-- The units that the escape behind a backslash stands for. A line continuation stands for none,
and a character without a meaning of its own for itself. -/
def readEscape (context : EscapeContext) : Reader (List UInt16)
  | [] => .refused .unterminatedEscape []
  | c :: cs =>
    match letterEscape? c with
    | some u => .done [u] cs
    | none =>
      match digitValue? 8 c with
      | some d => readOctalEscape context d cs
      | none =>
        if c = '8' ∨ c = '9' then
          match context.decimalComplaint? c with
          | some complaint => .refused complaint cs
          | none => .done (unitsOfChar c) cs
        else if c = 'x' then (readHexDigits .hexEscape 2 0 cs).map fun n => [UInt16.ofNat n]
        else if c = 'u' then (readPairedCodePoint cs).map unitsOfCodePoint
        else if isLineTerminator c then .done [] (afterLineTerminator c cs)
        else .done (unitsOfChar c) cs

theorem readEscape_lineTerminator (context : EscapeContext) {c : Char}
    (hc : isLineTerminator c = true) (cs : List Char) :
    readEscape context (c :: cs) = .done [] (afterLineTerminator c cs) := by
  simp only [isLineTerminator, Bool.or_eq_true, beq_iff_eq] at hc
  rcases hc with ((rfl | rfl) | rfl) | rfl
  all_goals rfl

/-! ## Every escape reader is local -/

theorem local_readHexDigits (complaint : Complaint) (count value : Nat) :
    Reader.Local (readHexDigits complaint count value) := by
  induction count generalizing value with
  | zero => exact fun cs => List.suffix_rfl
  | succ n ih =>
    intro cs
    cases cs with
    | nil => exact List.suffix_rfl
    | cons c cs =>
      unfold readHexDigits
      dsimp only
      split
      · exact (ih _ cs).trans (List.suffix_cons ..)
      · exact List.suffix_rfl

theorem local_readBracedDigits (value count : Nat) :
    Reader.Local (readBracedDigits value count) := by
  intro cs
  induction cs generalizing value count with
  | nil => exact List.suffix_rfl
  | cons c cs ih =>
    unfold readBracedDigits
    split
    · split <;> exact List.suffix_cons ..
    · split
      · exact List.suffix_rfl
      · split
        · exact List.suffix_rfl
        · exact (ih _ _).trans (List.suffix_cons ..)

theorem local_readCodePoint : Reader.Local readCodePoint := by
  intro cs
  unfold readCodePoint
  split
  · exact (local_readBracedDigits 0 0 _).trans (List.suffix_cons ..)
  · exact local_readHexDigits _ 4 0 _

theorem local_readPairedCodePoint : Reader.Local readPairedCodePoint := by
  intro cs
  have h := local_readCodePoint cs
  unfold readPairedCodePoint
  split
  · rename_i c rest heq
    rw [heq] at h
    exact h
  · rename_i high rest heq
    rw [heq] at h
    split
    · split
      · rename_i second
        have hs : second <:+ '\\' :: 'u' :: second := ⟨['\\', 'u'], rfl⟩
        have h2 := (local_readCodePoint second).trans hs
        split
        · rename_i low rest' heq2
          rw [heq2, Read.rest_done] at h2
          split
          · rw [Read.rest_done]; exact h2.trans h
          · exact h
        · exact h
      · exact h
    · exact h

theorem readOctalDigits_suffix (count value : Nat) (cs : List Char) :
    (readOctalDigits count value cs).2 <:+ cs := by
  induction count generalizing value cs with
  | zero => exact List.suffix_rfl
  | succ n ih =>
    cases cs with
    | nil => exact List.suffix_rfl
    | cons c cs =>
      unfold readOctalDigits
      split
      · exact (ih _ cs).trans (List.suffix_cons ..)
      · exact List.suffix_rfl

theorem local_readOctalEscape (context : EscapeContext) (first : Nat) :
    Reader.Local (readOctalEscape context first) := by
  intro cs
  unfold readOctalEscape
  split
  · exact List.suffix_rfl
  · split
    · exact List.suffix_rfl
    · exact readOctalDigits_suffix ..

/-- An escape takes the character behind the backslash, and more from the front only. -/
theorem rest_readEscape_suffix (context : EscapeContext) (c : Char) (cs : List Char) :
    (readEscape context (c :: cs)).rest <:+ cs := by
  simp only [readEscape]
  split
  · exact List.suffix_rfl
  split
  · exact local_readOctalEscape ..
  split
  · split <;> exact List.suffix_rfl
  split
  · rw [Read.rest_map]; exact local_readHexDigits ..
  split
  · rw [Read.rest_map]; exact local_readPairedCodePoint _
  split
  · exact afterLineTerminator_suffix c cs
  · exact List.suffix_rfl

/-- An escape consumes characters from the front only. -/
theorem local_readEscape (context : EscapeContext) : Reader.Local (readEscape context) := by
  intro cs
  cases cs with
  | nil => exact List.suffix_rfl
  | cons c cs => exact (rest_readEscape_suffix context c cs).trans (List.suffix_cons ..)

/-! ## Escapes at a cursor -/

namespace Cursor

/-- Joins a high surrogate with the escape of a low one that the cursor is at. If that is no such
escape, the cursor is put back. -/
def readLowSurrogate (high : Nat) (k : Cursor) : Read Nat Cursor :=
  match k.advance.advance.read readCodePoint with
  | .done low k' =>
    if isUnitOf isLowSurrogate low then
      .done (combineSurrogates (UInt16.ofNat high) (UInt16.ofNat low)) k'
    else
      .done high k
  | .refused _ _ => .done high k

/-- The code point that an escape stands for, from behind its letter. This is
`read_escaped_code_point`. -/
def readPairedCodePoint (k : Cursor) : Read Nat Cursor :=
  match k.read readCodePoint with
  | .refused complaint k => .refused complaint k
  | .done high k =>
    if isUnitOf isHighSurrogate high && ['\\', 'u'].isPrefixOf k.rest then k.readLowSurrogate high
    else .done high k

/-- The units that the escape behind a backslash stands for. A line continuation ends the line, and
all other escapes stay on it. This is `read_escape_sequence`. -/
def readEscape (context : EscapeContext) (k : Cursor) : Read (List UInt16) Cursor :=
  match k.rest with
  | [] => .refused .unterminatedEscape k
  | c :: _ =>
    if c = 'u' then k.advance.readPairedCodePoint.map unitsOfCodePoint
    else if isLineTerminator c then .done [] (k.advance.newline c)
    else k.read (Ecma.readEscape context)

/-- A cursor that is put back has moved over what was consumed. -/
theorem readLowSurrogate_eq (high : Nat) {k : Cursor} {second : List Char}
    (h : k.rest = '\\' :: 'u' :: second) :
    k.readLowSurrogate high =
      match readCodePoint second with
      | .done low rest =>
        if isUnitOf isLowSurrogate low then
          .done (combineSurrogates (UInt16.ofNat high) (UInt16.ofNat low)) (k.advanceTo rest)
        else
          .done high k
      | .refused _ _ => .done high k := by
  have hsecond : second <:+ k.rest := h ▸ ⟨['\\', 'u'], rfl⟩
  rw [readLowSurrogate, advance_advance h, read_advanceTo local_readCodePoint hsecond]
  cases readCodePoint second <;> rfl

/-- Looking for a low surrogate moves a cursor over what is consumed. -/
theorem readPairedCodePoint_eq (k : Cursor) :
    k.readPairedCodePoint = k.read Ecma.readPairedCodePoint := by
  have hlocal := local_readCodePoint k.rest
  rw [readPairedCodePoint, read, read, Ecma.readPairedCodePoint]
  cases hread : readCodePoint k.rest with
  | refused complaint rest => rfl
  | done high rest =>
    rw [hread, Read.rest_done] at hlocal
    simp only [Read.mapRest_done, rest_advanceTo hlocal, Bool.and_eq_true,
      List.isPrefixOf_iff_prefix]
    by_cases hlook : isUnitOf isHighSurrogate high = true ∧ ['\\', 'u'] <+: rest
    · rw [if_pos hlook, if_pos hlook.1]
      obtain ⟨-, second, hsecond⟩ := hlook
      obtain rfl : '\\' :: 'u' :: second = rest := hsecond
      have hlow := local_readCodePoint second
      rw [readLowSurrogate_eq high (rest_advanceTo hlocal)]
      cases hread' : readCodePoint second with
      | refused complaint rest => simp only [hread', Read.mapRest_done]
      | done low rest =>
        rw [hread', Read.rest_done] at hlow
        simp only [hread', advanceTo_advanceTo hlocal (hlow.trans ⟨['\\', 'u'], rfl⟩)]
        split <;> rfl
    · rw [if_neg hlook]
      split
      · rename_i hhigh
        split
        · rename_i second
          exact absurd ⟨hhigh, second, rfl⟩ hlook
        · rfl
      · rfl

/-- From a cursor, an escape is read as its text says. -/
theorem mapRest_readEscape (context : EscapeContext) (k : Cursor) :
    (k.readEscape context).mapRest rest = Ecma.readEscape context k.rest := by
  cases hrest : k.rest with
  | nil => simp only [readEscape, hrest, Ecma.readEscape, Read.mapRest]
  | cons c cs =>
    simp only [readEscape, hrest]
    split
    · rename_i hu
      subst hu
      rw [readPairedCodePoint_eq, Read.mapRest_map, mapRest_read local_readPairedCodePoint,
        rest_advance hrest]
      rfl
    split
    · rename_i hc
      rw [Read.mapRest_done, rest_newline, rest_advance hrest, readEscape_lineTerminator context hc]
    · rw [mapRest_read (local_readEscape context), hrest]

theorem rest_readEscape (context : EscapeContext) (k : Cursor) :
    (k.readEscape context).rest.rest = (Ecma.readEscape context k.rest).rest := by
  rw [← mapRest_readEscape, Read.rest_mapRest]

/-- An escape moves a cursor over characters from the front only. -/
theorem rest_readEscape_suffix (context : EscapeContext) (k : Cursor) :
    (k.readEscape context).rest.rest <:+ k.rest := by
  rw [rest_readEscape]
  exact local_readEscape context k.rest

end Cursor

end Ecma
