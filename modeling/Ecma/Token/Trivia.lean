import Ecma.Token.Cursor

/-!
# What stands between tokens

Blanks, line terminators and comments. Besides the two usual forms, a comment to the end of the line
is opened by a hash and an exclamation mark at the very start of the source, by the opening mark of
an HTML comment anywhere, and by its closing mark where only blanks and comments stand before it on
the line.
-/

namespace Ecma

/-- What was skipped before a token. -/
inductive Trivia where
  /-- The text between two tokens, with or without a line terminator, and what is left behind it. -/
  | gap (newline : Bool) (rest : List Char)
  /-- A block comment that the source does not close; this is the source from its start on. -/
  | unclosed (comment : List Char)
deriving DecidableEq, Repr

/-- What is left of the source from the end of the line on. -/
def dropLine (cs : List Char) : List Char := cs.dropWhile fun c => !isLineTerminator c

/-- The end of a block comment: whether a line terminator stands before it, and what is left behind
it. -/
def blockEnd? : List Char → Option (Bool × List Char)
  | [] => none
  | '*' :: '/' :: cs => some (false, cs)
  | c :: cs => (blockEnd? cs).map fun (newline, rest) => (isLineTerminator c || newline, rest)

/-- How a piece of trivia starts. -/
inductive TriviaStart where
  /-- A blank. -/
  | blank
  /-- A line terminator. -/
  | newline
  /-- A comment that runs to the end of the line. -/
  | lineComment
  /-- A comment that runs to its closing mark. -/
  | blockComment
  /-- A token. -/
  | none
deriving DecidableEq, Repr

/-- How the source goes on, at its very start or not, and at the start of a line or not. -/
def triviaStart (atStart lineStart : Bool) : List Char → TriviaStart
  | [] => .none
  | c :: cs =>
    if isBlank c then .blank
    else if isLineTerminator c then .newline
    else
      match c, cs with
      | '/', '/' :: _ => .lineComment
      | '/', '*' :: _ => .blockComment
      | '#', '!' :: _ => if atStart then .lineComment else .none
      | '<', '!' :: '-' :: '-' :: _ => .lineComment
      | '-', '-' :: '>' :: _ => if lineStart then .lineComment else .none
      | _, _ => .none

theorem dropLine_cons {c : Char} (hc : isLineTerminator c = false) (cs : List Char) :
    dropLine (c :: cs) = dropLine cs := by
  simp [dropLine, hc]

theorem dropLine_suffix (cs : List Char) : dropLine cs <:+ cs := List.dropWhile_suffix _

theorem blockEnd?_suffix {cs rest : List Char} {newline : Bool}
    (h : blockEnd? cs = some (newline, rest)) : rest <:+ cs := by
  fun_induction blockEnd? cs generalizing newline rest with
  | case1 => simp at h
  | case2 cs =>
    simp only [Option.some.injEq, Prod.mk.injEq] at h
    exact h.2 ▸ ⟨['*', '/'], rfl⟩
  | case3 c cs _ ih =>
    obtain ⟨⟨b, r⟩, hr, he⟩ := Option.map_eq_some_iff.1 h
    simp only [Prod.mk.injEq] at he
    exact he.2 ▸ (ih hr).trans (List.suffix_cons ..)

/-- Skips blanks, line terminators and comments. `newline` says whether a line terminator has been
crossed so far, and `lineStart` whether the line had no token before that. -/
def skipTrivia (lineStart : Bool) (atStart newline : Bool) : List Char → Trivia
  | [] => .gap newline []
  | c :: cs =>
    match triviaStart atStart (lineStart || newline) (c :: cs) with
    | .none => .gap newline (c :: cs)
    | .blank => skipTrivia lineStart false newline cs
    | .newline => skipTrivia lineStart false true cs
    | .lineComment => skipTrivia lineStart false newline (dropLine cs)
    | .blockComment =>
      match _h : blockEnd? (cs.drop 1) with
      | none => .unclosed (c :: cs)
      | some (crossed, rest) => skipTrivia lineStart false (newline || crossed) rest
termination_by cs => cs.length
decreasing_by
  · simp
  · simp
  · have := (dropLine_suffix cs).length_le
    simp only [List.length_cons]
    omega
  · have := (blockEnd?_suffix _h).length_le
    simp only [List.length_drop] at this
    simp only [List.length_cons]
    omega

/-- The source from the next token, or from the unclosed comment, on. -/
def Trivia.rest : Trivia → List Char
  | gap _ rest => rest
  | unclosed comment => comment

/-- Skipping takes characters from the front only. -/
theorem rest_skipTrivia_suffix (lineStart atStart newline : Bool) (cs : List Char) :
    (skipTrivia lineStart atStart newline cs).rest <:+ cs := by
  fun_induction skipTrivia lineStart atStart newline cs with
  | case1 => exact List.suffix_rfl
  | case2 => exact List.suffix_rfl
  | case3 _ _ _ _ _ ih => exact ih.trans (List.suffix_cons ..)
  | case4 _ _ _ _ _ ih => exact ih.trans (List.suffix_cons ..)
  | case5 _ _ _ cs _ ih => exact ih.trans ((dropLine_suffix cs).trans (List.suffix_cons ..))
  | case6 => exact List.suffix_rfl
  | case7 _ _ c cs _ _ _ h ih =>
    have hd := (List.drop_suffix 1 cs).trans (List.suffix_cons c cs)
    exact ih.trans ((blockEnd?_suffix h).trans hd)

/-! ## Skipping from a cursor -/

/-- What a cursor moved over before a token. -/
inductive Skipped where
  /-- The text between two tokens, with or without a line terminator, up to a place. -/
  | gap (newline : Bool) (k : Cursor)
  /-- A block comment that the source does not close, from its start to the end of the source. -/
  | unclosed (start stop : Cursor)

namespace Skipped

/-- The place of the next token, or of the unclosed comment. -/
def start : Skipped → Cursor
  | gap _ k => k
  | unclosed start _ => start

/-- The place up to which a cursor moved. -/
def stop : Skipped → Cursor
  | gap _ k => k
  | unclosed _ stop => stop

/-- What was skipped of the text. -/
def trivia : Skipped → Trivia
  | gap newline k => .gap newline k.rest
  | unclosed start _ => .unclosed start.rest

end Skipped

namespace Cursor

/-- Moves to the end of the line. This is `skip_line_comment`. -/
def skipLine (k : Cursor) : Cursor :=
  match _h : k.rest with
  | [] => k
  | c :: _ => if isLineTerminator c then k else k.advance.skipLine
termination_by k.rest.length
decreasing_by
  rw [rest_advance _h, _h]
  exact Nat.lt_succ_self _

/-- Moves over a block comment from behind its opening mark, and says whether a line terminator was
passed, unless the comment has no end. This is `skip_block_comment`. -/
def skipBlock (newline : Bool) (k : Cursor) : Option Bool × Cursor :=
  match _h : k.rest with
  | [] => (none, k)
  | c :: cs =>
    if c = '*' ∧ cs.head? = some '/' then (some newline, k.advance.advance)
    else k.step.skipBlock (newline || isLineTerminator c)
termination_by k.rest.length
decreasing_by
  have hlength := (rest_step_suffix _h).length_le
  rw [_h, List.length_cons]
  omega

theorem rest_skipLine (k : Cursor) : k.skipLine.rest = dropLine k.rest := by
  fun_induction skipLine k with
  | case1 k h => rw [h]; rfl
  | case2 k c cs h hc => rw [h, dropLine, List.dropWhile_cons_of_neg (by simp [hc])]
  | case3 k c cs h hc ih => rw [ih, rest_advance h, h, dropLine_cons (Bool.eq_false_iff.2 hc)]

@[simp] theorem lineStart_skipLine (k : Cursor) : k.skipLine.lineStart = k.lineStart := by
  fun_induction skipLine k with
  | case1 => rfl
  | case2 => rfl
  | case3 k c cs h hc ih => rw [ih, lineStart_advance]

theorem passes_skipLine (k : Cursor) : Passes k k.skipLine := by
  fun_induction skipLine k with
  | case1 k h => exact .refl k
  | case2 k c cs h hc => exact .refl k
  | case3 k c cs h hc ih => exact .advance h (Bool.eq_false_iff.2 hc) ih

theorem passes_skipBlock (newline : Bool) (k : Cursor) : Passes k (k.skipBlock newline).2 := by
  fun_induction skipBlock newline k with
  | case1 newline k h => exact .refl k
  | case2 newline k c cs h hclose =>
    obtain ⟨rfl, hhead⟩ := hclose
    obtain ⟨rest, rfl⟩ := List.head?_eq_some_iff.1 hhead
    exact .advance h rfl (.advance (rest_advance h) rfl (.refl _))
  | case3 newline k c cs h hclose ih => exact .step ih

theorem rest_skipBlock_of_none {newline : Bool} {k : Cursor} (h : (k.skipBlock newline).1 = none) :
    (k.skipBlock newline).2.rest = [] := by
  fun_induction skipBlock newline k with
  | case1 newline k hrest => exact hrest
  | case2 => cases h
  | case3 newline k c cs hrest hclose ih => exact ih h

/-- A line terminator that is passed with the one before it is passed all the same. -/
theorem blockEnd?_afterLineTerminator {c : Char} {cs : List Char}
    (hclose : ¬(c = '*' ∧ cs.head? = some '/')) :
    blockEnd? (c :: cs) = (blockEnd? (afterLineTerminator c cs)).map fun (newline, rest) =>
      (isLineTerminator c || newline, rest) := by
  have hcons : ∀ {c : Char} {cs : List Char}, ¬(c = '*' ∧ cs.head? = some '/') →
      blockEnd? (c :: cs) =
        (blockEnd? cs).map fun (newline, rest) => (isLineTerminator c || newline, rest) := by
    intro c cs h
    rw [blockEnd?]
    rintro cs' rfl rfl
    exact h ⟨rfl, rfl⟩
  rw [hcons hclose]
  unfold afterLineTerminator
  split
  · split
    · rename_i rest hc
      rw [hcons (by simp), Option.map_map]
      refine congrArg (Option.map · _) (funext fun p => ?_)
      simp [hc, isLineTerminator]
    · rfl
  · rfl

/-- From a cursor, a block comment is passed as its text says. -/
theorem skipBlock_eq (newline : Bool) (k : Cursor) :
    (blockEnd? k.rest = none → (k.skipBlock newline).1 = none) ∧
      ∀ crossed rest, blockEnd? k.rest = some (crossed, rest) →
        (k.skipBlock newline).1 = some (newline || crossed) ∧
          (k.skipBlock newline).2.rest = rest ∧
          (k.skipBlock newline).2.lineStart = (k.lineStart || crossed) := by
  fun_induction skipBlock newline k with
  | case1 newline k h =>
    rw [h]
    exact ⟨fun _ => rfl, nofun⟩
  | case2 newline k c cs h hclose =>
    obtain ⟨rfl, hhead⟩ := hclose
    obtain ⟨rest, rfl⟩ := List.head?_eq_some_iff.1 hhead
    rw [h, blockEnd?, rest_advance (rest_advance h)]
    refine ⟨nofun, fun crossed rest' heq => ?_⟩
    obtain ⟨rfl, rfl⟩ := Prod.mk.inj (Option.some.inj heq)
    simp
  | case3 newline k c cs h hclose ih =>
    rw [rest_step h] at ih
    rw [h, blockEnd?_afterLineTerminator hclose]
    refine ⟨fun hnone => ih.1 (Option.map_eq_none_iff.1 hnone), fun crossed rest heq => ?_⟩
    obtain ⟨p, hp, heq⟩ := Option.map_eq_some_iff.1 heq
    obtain ⟨rfl, rfl⟩ := Prod.mk.inj heq
    obtain ⟨hcrossed, hrest, hline⟩ := ih.2 p.1 p.2 hp
    rw [hline, lineStart_step h, Bool.or_assoc]
    exact ⟨hcrossed.trans (congrArg some (Bool.or_assoc ..)), hrest, rfl⟩

theorem isLineTerminator_of_lineComment {atStart lineStart : Bool} {c : Char} {cs : List Char}
    (h : triviaStart atStart lineStart (c :: cs) = .lineComment) : isLineTerminator c = false := by
  unfold triviaStart at h
  dsimp only at h
  split at h
  · cases h
  split at h
  · cases h
  · rename_i hc
    exact Bool.eq_false_iff.2 hc

/-- A comment to the end of the line has at least one character. -/
theorem rest_skipLine_suffix {atStart lineStart : Bool} {k : Cursor} {c : Char} {cs : List Char}
    (h : k.rest = c :: cs) (hstart : triviaStart atStart lineStart (c :: cs) = .lineComment) :
    k.skipLine.rest <:+ cs := by
  rw [rest_skipLine, h, dropLine_cons (isLineTerminator_of_lineComment hstart)]
  exact dropLine_suffix cs

/-- A block comment has at least one character. -/
theorem rest_skipBlock_suffix {k : Cursor} {c : Char} {cs : List Char} (h : k.rest = c :: cs)
    (newline : Bool) : (k.advance.advance.skipBlock newline).2.rest <:+ cs := by
  have hsuffix := (passes_skipBlock newline k.advance.advance).suffix
  rw [rest_advance_eq, rest_advance h] at hsuffix
  exact hsuffix.trans (List.drop_suffix 1 cs)

/-- Moves over blanks, line terminators and comments; `newline` says whether a line terminator has
been crossed so far. This is `skip_trivia`. -/
def skipTrivia (newline : Bool) (k : Cursor) : Skipped :=
  match _h : k.rest with
  | [] => .gap newline k
  | c :: cs =>
    match _hstart : triviaStart (k.position.offset == 0) k.lineStart (c :: cs) with
    | .none => .gap newline k
    | .blank => k.advance.skipTrivia newline
    | .newline => k.step.skipTrivia true
    | .lineComment => k.skipLine.skipTrivia newline
    | .blockComment =>
      match _hblock : k.advance.advance.skipBlock false with
      | (none, stop) => .unclosed k stop
      | (some crossed, k') => k'.skipTrivia (newline || crossed)
termination_by k.rest.length
decreasing_by
  · rw [rest_advance _h, _h]
    exact Nat.lt_succ_self _
  · rw [_h]
    exact Nat.lt_succ_of_le (rest_step_suffix _h).length_le
  · rw [_h]
    exact Nat.lt_succ_of_le (rest_skipLine_suffix _h _hstart).length_le
  · have hsuffix := rest_skipBlock_suffix _h false
    rw [_hblock] at hsuffix
    rw [_h]
    exact Nat.lt_succ_of_le hsuffix.length_le

/-- Skipping takes characters from the front only. -/
theorem rest_skipTrivia_suffix (newline : Bool) (k : Cursor) :
    (k.skipTrivia newline).stop.rest <:+ k.rest := by
  fun_induction skipTrivia newline k with
  | case1 => exact List.suffix_rfl
  | case2 => exact List.suffix_rfl
  | case3 newline k c cs h _ ih =>
    rw [rest_advance h] at ih
    rw [h]
    exact ih.trans (List.suffix_cons c cs)
  | case4 newline k c cs h _ ih =>
    rw [h]
    exact (ih.trans (rest_step_suffix h)).trans (List.suffix_cons c cs)
  | case5 newline k c cs h hstart ih =>
    rw [h]
    exact (ih.trans (rest_skipLine_suffix h hstart)).trans (List.suffix_cons c cs)
  | case6 newline k c cs h _ stop hblock =>
    have hsuffix := rest_skipBlock_suffix h false
    rw [hblock] at hsuffix
    rw [h]
    exact hsuffix.trans (List.suffix_cons c cs)
  | case7 newline k c cs h _ crossed k' hblock ih =>
    have hsuffix := rest_skipBlock_suffix h false
    rw [hblock] at hsuffix
    rw [h]
    exact (ih.trans hsuffix).trans (List.suffix_cons c cs)

/-- A block comment without an end goes on to the end of the source. -/
theorem rest_unclosed {newline : Bool} {k start stop : Cursor}
    (h : k.skipTrivia newline = .unclosed start stop) : stop.rest = [] := by
  fun_induction skipTrivia newline k with
  | case1 => cases h
  | case2 => cases h
  | case3 _ _ _ _ _ _ ih => exact ih h
  | case4 _ _ _ _ _ _ ih => exact ih h
  | case5 _ _ _ _ _ _ ih => exact ih h
  | case6 newline k c cs hk _ stop hblock =>
    cases h
    have hrest := rest_skipBlock_of_none (congrArg Prod.fst hblock)
    rwa [hblock] at hrest
  | case7 _ _ _ _ _ _ _ _ _ ih => exact ih h

/-- A block comment without an end takes at least one character. -/
theorem rest_unclosed_lt {newline : Bool} {k start stop : Cursor}
    (h : k.skipTrivia newline = .unclosed start stop) : stop.rest.length < k.rest.length := by
  fun_induction skipTrivia newline k with
  | case1 => cases h
  | case2 => cases h
  | case3 newline k c cs hk _ ih =>
    rw [hk]
    exact Nat.lt_succ_of_lt (rest_advance hk ▸ ih h)
  | case4 newline k c cs hk _ ih =>
    rw [hk]
    exact Nat.lt_succ_of_lt (Nat.lt_of_lt_of_le (ih h) (rest_step_suffix hk).length_le)
  | case5 newline k c cs hk hstart ih =>
    rw [hk]
    exact Nat.lt_succ_of_lt (Nat.lt_of_lt_of_le (ih h) (rest_skipLine_suffix hk hstart).length_le)
  | case6 newline k c cs hk _ stop hblock =>
    cases h
    have hsuffix := rest_skipBlock_suffix hk false
    rw [hblock] at hsuffix
    rw [hk]
    exact Nat.lt_succ_of_le hsuffix.length_le
  | case7 newline k c cs hk _ crossed k' hblock ih =>
    have hsuffix := rest_skipBlock_suffix hk false
    rw [hblock] at hsuffix
    rw [hk]
    exact Nat.lt_succ_of_lt (Nat.lt_of_lt_of_le (ih h) hsuffix.length_le)

end Cursor

end Ecma
