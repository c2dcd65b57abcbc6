import Ecma.Token.Position
import Ecma.Token.Read
import Ecma.Unicode.Blank

/-!
# Moving over the source

A cursor is a place in the source, with what is counted on the way to it. It moves over one
character at a time (`advance`), and where a line terminator counts, a new line is begun behind it
(`newline`). Readers know nothing of lines: a cursor that is moved by a reader moves over one
character after the other until it is where the reader stopped (`Cursor.read`), so whatever may pass
a line end moves a cursor itself. What it reads is then said by a reader as well, and that both read
the same is proved beside it.
-/

namespace Ecma

/-- A place in the source, and what is known there of the text before it. -/
structure Cursor where
  /-- What is left of the source. -/
  rest : List Char
  /-- The position of what is left. -/
  position : Position
  /-- Whether the line has had no token so far. -/
  lineStart : Bool
deriving Repr

/-- What is left after a line terminator, which may be a carriage return and a line feed. -/
def afterLineTerminator (c : Char) (cs : List Char) : List Char :=
  match cs with
  | '\n' :: rest => if c = '\r' then rest else cs
  | _ => cs

theorem afterLineTerminator_suffix (c : Char) (cs : List Char) :
    afterLineTerminator c cs <:+ cs := by
  unfold afterLineTerminator
  split
  · split
    · exact List.suffix_cons ..
    · exact List.suffix_rfl
  · exact List.suffix_rfl

theorem afterLineTerminator_eq_self {c : Char} (hc : c ≠ '\r') (cs : List Char) :
    afterLineTerminator c cs = cs := by
  unfold afterLineTerminator
  split
  · rw [if_neg hc]
  · rfl

namespace Cursor

/-! ## Moves -/

/-- Moves over the next character, if there is one. This is `advance`. -/
def advance (k : Cursor) : Cursor :=
  match k.rest with
  | [] => k
  | c :: cs => { k with rest := cs, position := k.position.behindChar c }

/-- Begins a line behind a line terminator that was just moved over, and behind a line feed right
behind a carriage return. This is `handle_newline`. -/
def newline (k : Cursor) (c : Char) : Cursor :=
  let k := if c = '\r' ∧ k.rest.head? = some '\n' then k.advance else k
  { k with position := k.position.newLine, lineStart := true }

/-- Moves over the next character, and over the end of the line if that is a line terminator. -/
def step (k : Cursor) : Cursor :=
  match k.rest with
  | [] => k
  | c :: _ => if isLineTerminator c then k.advance.newline c else k.advance

/-- Moves over a number of characters. -/
def advanceBy (k : Cursor) : Nat → Cursor
  | 0 => k
  | n + 1 => k.advance.advanceBy n

/-- Moves over characters until this is left. -/
def advanceTo (k : Cursor) (rest : List Char) : Cursor := k.advanceBy (k.rest.length - rest.length)

/-- Reads from a cursor, which moves over what the reader consumes. -/
def read {α : Type} (k : Cursor) (m : Reader α) : Read α Cursor := (m k.rest).mapRest k.advanceTo

/-- A cursor is reached from another one by moving over characters, and over each line end as one
line. -/
inductive Passes : Cursor → Cursor → Prop where
  | refl (k : Cursor) : Passes k k
  | step {k k' : Cursor} (h : Passes k.step k') : Passes k k'

/-! ## What is left behind a move -/

variable {k : Cursor} {c : Char} {cs : List Char}

theorem rest_advance_eq (k : Cursor) : k.advance.rest = k.rest.drop 1 := by
  unfold advance
  split
  · rename_i hrest
    rw [hrest]
    rfl
  · rename_i hrest
    rw [hrest]
    rfl

theorem rest_advance (h : k.rest = c :: cs) : k.advance.rest = cs := by
  rw [rest_advance_eq, h]
  rfl

theorem position_advance (h : k.rest = c :: cs) :
    k.advance.position = k.position.behindChar c := by
  rw [advance, h]

@[simp] theorem lineStart_advance (k : Cursor) : k.advance.lineStart = k.lineStart := by
  unfold advance
  split <;> rfl

theorem rest_newline (k : Cursor) (c : Char) :
    (k.newline c).rest = afterLineTerminator c k.rest := by
  unfold newline afterLineTerminator
  dsimp only
  split
  · rename_i hparts
    obtain ⟨rfl, hhead⟩ := hparts
    obtain ⟨rest, hrest⟩ := List.head?_eq_some_iff.1 hhead
    rw [rest_advance hrest, hrest]
    rfl
  · rename_i hparts
    split
    · rename_i rest hrest
      rw [if_neg fun hc => hparts ⟨hc, by rw [hrest]; rfl⟩]
    · rfl

theorem rest_step (h : k.rest = c :: cs) : k.step.rest = afterLineTerminator c cs := by
  simp only [step, h]
  split
  · rw [rest_newline, rest_advance h]
  · rename_i hc
    rw [rest_advance h, afterLineTerminator_eq_self]
    rintro rfl
    exact hc rfl

theorem rest_step_suffix (h : k.rest = c :: cs) : k.step.rest <:+ cs := by
  rw [rest_step h]
  exact afterLineTerminator_suffix c cs

theorem rest_advanceBy (k : Cursor) (n : Nat) : (k.advanceBy n).rest = k.rest.drop n := by
  induction n generalizing k with
  | zero => rfl
  | succ n ih => rw [advanceBy, ih, rest_advance_eq, List.drop_drop, Nat.add_comm]

theorem rest_advanceTo {rest : List Char} (h : rest <:+ k.rest) :
    (k.advanceTo rest).rest = rest := by
  rw [advanceTo, rest_advanceBy]
  exact (List.suffix_iff_eq_drop.1 h).symm

theorem advanceBy_add (k : Cursor) (m n : Nat) :
    k.advanceBy (m + n) = (k.advanceBy m).advanceBy n := by
  induction m generalizing k with
  | zero => rw [Nat.zero_add, advanceBy]
  | succ m ih => rw [Nat.succ_add, advanceBy, advanceBy, ih]

theorem advanceTo_self (k : Cursor) : k.advanceTo k.rest = k := by
  rw [advanceTo, Nat.sub_self, advanceBy]

theorem advanceTo_tail (h : k.rest = c :: cs) : k.advanceTo cs = k.advance := by
  rw [advanceTo, h, List.length_cons, Nat.add_sub_cancel_left, advanceBy, advanceBy]

theorem advanceTo_advanceTo {rest rest' : List Char} (h : rest <:+ k.rest) (h' : rest' <:+ rest) :
    (k.advanceTo rest).advanceTo rest' = k.advanceTo rest' := by
  have hlength := h.length_le
  have hlength' := h'.length_le
  rw [advanceTo, rest_advanceTo h, advanceTo, ← advanceBy_add, advanceTo]
  congr 1
  omega

theorem advance_advance {d : Char} (h : k.rest = c :: d :: cs) :
    k.advance.advance = k.advanceTo cs := by
  rw [← advanceTo_tail (rest_advance h), ← advanceTo_tail h,
    advanceTo_advanceTo (h ▸ List.suffix_cons ..) (List.suffix_cons ..)]

/-! ## Passing over a text -/

theorem step_eq_advance (h : k.rest = c :: cs) (hc : isLineTerminator c = false) :
    k.step = k.advance := by
  simp [step, h, hc]

theorem lineStart_step (h : k.rest = c :: cs) :
    k.step.lineStart = (k.lineStart || isLineTerminator c) := by
  simp only [step, h]
  split
  · rename_i hc
    rw [hc, Bool.or_true]
    rfl
  · rename_i hc
    rw [lineStart_advance, Bool.eq_false_iff.2 hc, Bool.or_false]

theorem offset_advance_le (k : Cursor) : k.position.offset ≤ k.advance.position.offset := by
  unfold advance
  split
  · exact Nat.le_refl _
  · exact Nat.le_add_right _ _

theorem offset_advance_pos (h : k.rest = c :: cs) : 0 < k.advance.position.offset := by
  rw [position_advance h]
  exact Nat.add_pos_right _ c.utf8Size_pos

theorem offset_newline_le (k : Cursor) (c : Char) :
    k.position.offset ≤ (k.newline c).position.offset := by
  unfold newline
  dsimp only
  split
  · exact offset_advance_le k
  · exact Nat.le_refl _

theorem offset_step_le (k : Cursor) : k.position.offset ≤ k.step.position.offset := by
  unfold step
  split
  · exact Nat.le_refl _
  · split
    · exact Nat.le_trans k.offset_advance_le (offset_newline_le ..)
    · exact k.offset_advance_le

theorem offset_step_pos (h : k.rest = c :: cs) : 0 < k.step.position.offset := by
  have hpos := offset_advance_pos h
  simp only [step, h]
  split
  · exact Nat.lt_of_lt_of_le hpos (offset_newline_le ..)
  · exact hpos

namespace Passes

variable {k k' k'' : Cursor}

theorem trans (h : Passes k k') (h' : Passes k' k'') : Passes k k'' := by
  induction h with
  | refl k => exact h'
  | step _ ih => exact .step (ih h')

theorem advance (hrest : k.rest = c :: cs) (hc : isLineTerminator c = false)
    (h : Passes k.advance k') : Passes k k' := by
  refine .step ?_
  rwa [step_eq_advance hrest hc]

theorem offset_le (h : Passes k k') : k.position.offset ≤ k'.position.offset := by
  induction h with
  | refl k => exact Nat.le_refl _
  | @step k _ _ ih => exact Nat.le_trans k.offset_step_le ih

/-- A cursor that passed a character is behind the start of the source. -/
theorem offset_pos (h : Passes k k') (hrest : k.rest = c :: cs) (hs : k'.rest <:+ cs) :
    0 < k'.position.offset := by
  cases h with
  | refl =>
    have hlength := hs.length_le
    rw [hrest, List.length_cons] at hlength
    omega
  | step h => exact Nat.lt_of_lt_of_le (offset_step_pos hrest) h.offset_le

theorem suffix (h : Passes k k') : k'.rest <:+ k.rest := by
  induction h with
  | refl k => exact List.suffix_rfl
  | @step k _ _ ih =>
    cases hrest : k.rest with
    | nil =>
      have hstep : k.step = k := by rw [Cursor.step, hrest]
      rwa [hstep, hrest] at ih
    | cons c cs => exact ih.trans ((rest_step_suffix hrest).trans (List.suffix_cons c cs))

end Passes

/-! ## Readers -/

variable {α : Type} {m : Reader α}

/-- A reader reads from a cursor what it reads from the text there. -/
theorem mapRest_read (hm : m.Local) (k : Cursor) : (k.read m).mapRest rest = m k.rest := by
  have hsuffix := hm k.rest
  unfold read
  cases hread : m k.rest with
  | done a rest =>
    rw [hread] at hsuffix
    exact congrArg (Read.done a) (rest_advanceTo hsuffix)
  | refused complaint rest =>
    rw [hread] at hsuffix
    exact congrArg (Read.refused complaint) (rest_advanceTo hsuffix)

/-- A cursor that moves on may as well move from where it was before. -/
theorem read_advanceTo (hm : m.Local) {cs : List Char} (h : cs <:+ k.rest) :
    (k.advanceTo cs).read m = (m cs).mapRest k.advanceTo := by
  have hsuffix := hm cs
  rw [read, rest_advanceTo h]
  cases hread : m cs with
  | done a rest =>
    rw [hread] at hsuffix
    exact congrArg (Read.done a) (advanceTo_advanceTo h hsuffix)
  | refused complaint rest =>
    rw [hread] at hsuffix
    exact congrArg (Read.refused complaint) (advanceTo_advanceTo h hsuffix)

end Cursor

end Ecma
