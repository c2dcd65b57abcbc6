import Ecma.Token.Trivia
import Mathlib.Data.List.TakeWhile

/-!
# The grammar of gaps

What may stand between two tokens, as a grammar: blanks, line terminators and complete comments. A
comment to the end of the line is complete if a line terminator or the end of the source follows it,
so the grammar also looks at the source behind the gap. The main result `gap_skipTrivia` says that
skipping takes a gap from the front of the source, also where it stops at an unclosed comment.
Conversely, skipping that gets over a gap goes on behind it, with a line terminator crossed if the
gap has one (`skipTrivia_gap`).
-/

namespace Ecma

/-- The text starts with a mark that opens a comment to the end of the line. A hash and an
exclamation mark do so at the very start of the source only. -/
def OpensLineComment (atStart : Bool) (text : List Char) : Prop :=
  ['/', '/'] <+: text ∨ ['<', '!', '-', '-'] <+: text ∨ ['-', '-', '>'] <+: text ∨
    atStart = true ∧ ['#', '!'] <+: text

/-- The texts that may stand before `after`, at the very start of the source or not. -/
inductive Gap (after : List Char) : Bool → List Char → Prop where
  | nil {atStart : Bool} : Gap after atStart []
  | blank {atStart : Bool} {c : Char} {gap : List Char} (hc : isBlank c = true)
      (h : Gap after false gap) : Gap after atStart (c :: gap)
  | newline {atStart : Bool} {c : Char} {gap : List Char} (hc : isLineTerminator c = true)
      (h : Gap after false gap) : Gap after atStart (c :: gap)
  /-- A comment to the end of the line. -/
  | lineComment {atStart : Bool} {text gap : List Char} (ho : OpensLineComment atStart text)
      (ht : ∀ c ∈ text, isLineTerminator c = false)
      (he : ∀ c, (gap ++ after).head? = some c → isLineTerminator c = true)
      (h : Gap after false gap) : Gap after atStart (text ++ gap)
  /-- A comment to the first closing mark. -/
  | blockComment {atStart : Bool} {body gap : List Char} (hb : ¬['*', '/'] <:+: body)
      (h : Gap after false gap) : Gap after atStart (['/', '*'] ++ body ++ ['*', '/'] ++ gap)

/-! ## Comments -/

/-- The end of a block comment is its first closing mark. -/
theorem blockEnd?_eq_some {cs rest : List Char} {newline : Bool}
    (h : blockEnd? cs = some (newline, rest)) :
    ∃ body, cs = body ++ ['*', '/'] ++ rest ∧ ¬['*', '/'] <:+: body := by
  fun_induction blockEnd? cs generalizing newline rest with
  | case1 => cases h
  | case2 cs =>
    obtain ⟨-, rfl⟩ := Prod.mk.inj (Option.some.inj h)
    exact ⟨[], rfl, by decide⟩
  | case3 c cs hc ih =>
    obtain ⟨⟨crossed, r⟩, hr, he⟩ := Option.map_eq_some_iff.1 h
    obtain ⟨-, rfl⟩ := Prod.mk.inj he
    obtain ⟨body, rfl, hb⟩ := ih hr
    refine ⟨c :: body, rfl, fun hi => ?_⟩
    rcases List.infix_cons_iff.1 hi with ⟨tail, ht⟩ | hi
    · -- a closing mark at the front would have ended the comment there
      obtain ⟨rfl, rfl⟩ := List.cons.inj ht
      exact hc _ rfl rfl
    · exact hb hi

/-- A mark without line terminators that opens a text opens its first line. -/
theorem opens_firstLine {p : Char → Bool} {mark text : List Char} (h : mark <+: text)
    (hm : ∀ c ∈ mark, p c = true) : mark <+: text.takeWhile p := by
  obtain ⟨rest, rfl⟩ := h
  rw [List.takeWhile_append_of_pos hm]
  exact List.prefix_append mark _

theorem OpensLineComment.takeLine {atStart : Bool} {text : List Char}
    (h : OpensLineComment atStart text) :
    OpensLineComment atStart (text.takeWhile fun c => !isLineTerminator c) := by
  rcases h with h | h | h | ⟨hs, h⟩
  · exact Or.inl (opens_firstLine h (by simp [isLineTerminator]))
  · exact Or.inr (Or.inl (opens_firstLine h (by simp [isLineTerminator])))
  · exact Or.inr (Or.inr (Or.inl (opens_firstLine h (by simp [isLineTerminator]))))
  · exact Or.inr (Or.inr (Or.inr ⟨hs, opens_firstLine h (by simp [isLineTerminator])⟩))

/-! ## How trivia starts -/

/-- What the front of the source is if trivia starts there in some way. -/
def TriviaStart.Describes (atStart : Bool) (c : Char) (cs : List Char) : TriviaStart → Prop
  | .blank => isBlank c = true
  | .newline => isLineTerminator c = true
  | .lineComment => isLineTerminator c = false ∧ OpensLineComment atStart (c :: cs)
  | .blockComment => c = '/' ∧ ∃ body, cs = '*' :: body
  | .none => isLineTerminator c = false

theorem describes_of_triviaStart_eq {atStart lineStart : Bool} {c : Char} {cs : List Char}
    {start : TriviaStart} (h : triviaStart atStart lineStart (c :: cs) = start) :
    start.Describes atStart c cs := by
  subst h
  unfold triviaStart
  dsimp only
  split
  · assumption
  split
  · assumption
  rename_i hline
  split
  · exact ⟨rfl, Or.inl ⟨_, rfl⟩⟩
  · exact ⟨rfl, _, rfl⟩
  · split
    · rename_i hs
      exact ⟨rfl, Or.inr (Or.inr (Or.inr ⟨hs, _, rfl⟩))⟩
    · rfl
  · exact ⟨rfl, Or.inr (Or.inl ⟨_, rfl⟩)⟩
  · split
    · exact ⟨rfl, Or.inr (Or.inr (Or.inl ⟨_, rfl⟩))⟩
    · rfl
  · exact Bool.eq_false_iff.2 hline

/-- Skipping stops at the end of the source or where no trivia starts. -/
theorem triviaStart_of_skipTrivia {lineStart atStart newline newline' : Bool} {cs : List Char}
    {c : Char} {rest : List Char}
    (h : skipTrivia lineStart atStart newline cs = .gap newline' (c :: rest)) :
    ∃ atStart' lineStart', triviaStart atStart' lineStart' (c :: rest) = .none := by
  fun_induction skipTrivia lineStart atStart newline cs with
  | case1 => cases h
  | case2 atStart newline c' cs hstart =>
    cases h
    exact ⟨_, _, hstart⟩
  | case3 _ _ _ _ _ ih => exact ih h
  | case4 _ _ _ _ _ ih => exact ih h
  | case5 _ _ _ _ _ ih => exact ih h
  | case6 => cases h
  | case7 _ _ _ _ _ _ _ _ ih => exact ih h

/-- What is left behind a gap starts with no line terminator. -/
theorem head_skipTrivia {lineStart atStart newline newline' : Bool} {cs rest : List Char}
    (h : skipTrivia lineStart atStart newline cs = .gap newline' rest) :
    ∀ c ∈ rest.head?, isLineTerminator c = false := by
  cases rest with
  | nil => exact nofun
  | cons c rest =>
    rintro d hd
    obtain rfl := Option.some.inj hd
    obtain ⟨atStart', lineStart', hstart⟩ := triviaStart_of_skipTrivia h
    exact describes_of_triviaStart_eq hstart

/-- A comment that is never closed starts with a slash. -/
theorem head?_unclosed {lineStart atStart newline : Bool} {cs comment : List Char}
    (h : skipTrivia lineStart atStart newline cs = .unclosed comment) :
    comment.head? = some '/' := by
  fun_induction skipTrivia lineStart atStart newline cs with
  | case1 => cases h
  | case2 => cases h
  | case3 _ _ _ _ _ ih => exact ih h
  | case4 _ _ _ _ _ ih => exact ih h
  | case5 _ _ _ _ _ ih => exact ih h
  | case6 _ _ c cs hstart _ =>
    cases h
    obtain ⟨rfl, -⟩ := describes_of_triviaStart_eq hstart
    rfl
  | case7 _ _ _ _ _ _ _ _ ih => exact ih h

theorem unclosed_ne_nil {lineStart atStart newline : Bool} {cs comment : List Char}
    (h : skipTrivia lineStart atStart newline cs = .unclosed comment) : comment ≠ [] := by
  rintro rfl
  cases head?_unclosed h

/-- A comment to the end of the line takes the line, and no more. -/
theorem gap_lineComment {atStart : Bool} {c : Char} {cs gap rest : List Char}
    (hc : isLineTerminator c = false) (ho : OpensLineComment atStart (c :: cs))
    (hcs : dropLine cs = gap ++ rest) (h : Gap rest false gap) :
    ∃ gap', c :: cs = gap' ++ rest ∧ Gap rest atStart gap' := by
  have hline : (c :: cs).takeWhile (fun c => !isLineTerminator c) ++ (gap ++ rest) = c :: cs := by
    rw [← hcs, dropLine]
    simp [hc]
  refine ⟨_, ?_, .lineComment ho.takeLine ?_ ?_ h⟩
  · rw [List.append_assoc, hline]
  · intro d hd
    simpa using List.mem_takeWhile_imp hd
  · intro d hd
    have hhead := List.head?_dropWhile_not (fun c => !isLineTerminator c) cs
    rw [← dropLine, hcs, hd] at hhead
    simpa using hhead

/-- Skipping takes a gap from the front of the source. -/
theorem gap_skipTrivia (lineStart atStart newline : Bool) (cs : List Char) :
    ∃ gap, cs = gap ++ (skipTrivia lineStart atStart newline cs).rest ∧
      Gap (skipTrivia lineStart atStart newline cs).rest atStart gap := by
  fun_induction skipTrivia lineStart atStart newline cs with
  | case1 => exact ⟨[], rfl, .nil⟩
  | case2 => exact ⟨[], rfl, .nil⟩
  | case3 atStart newline c cs hstart ih =>
    obtain ⟨gap, hcs, hgap⟩ := ih
    have hc : isBlank c = true := describes_of_triviaStart_eq hstart
    exact ⟨c :: gap, congrArg (c :: ·) hcs, .blank hc hgap⟩
  | case4 atStart newline c cs hstart ih =>
    obtain ⟨gap, hcs, hgap⟩ := ih
    have hc : isLineTerminator c = true := describes_of_triviaStart_eq hstart
    exact ⟨c :: gap, congrArg (c :: ·) hcs, .newline hc hgap⟩
  | case5 atStart newline c cs hstart ih =>
    obtain ⟨gap, hcs, hgap⟩ := ih
    obtain ⟨hc, hopens⟩ := describes_of_triviaStart_eq hstart
    exact gap_lineComment hc hopens hcs hgap
  | case6 => exact ⟨[], rfl, .nil⟩
  | case7 atStart newline c cs hstart crossed rest hend ih =>
    obtain ⟨gap, hcs, hgap⟩ := ih
    obtain ⟨rfl, body', rfl⟩ := describes_of_triviaStart_eq hstart
    obtain ⟨body, hbody, hno⟩ := blockEnd?_eq_some hend
    rw [List.drop_one, List.tail_cons] at hbody
    refine ⟨_, ?_, .blockComment hno hgap⟩
    rw [hbody]
    simp [← hcs]

/-! ## Skipping a gap -/

/-- A block comment ends at its first closing mark. -/
theorem blockEnd?_append {body : List Char} (hb : ¬['*', '/'] <:+: body) (rest : List Char) :
    blockEnd? (body ++ ['*', '/'] ++ rest) = some (body.any isLineTerminator, rest) := by
  induction body with
  | nil => rfl
  | cons c body ih =>
    have hbody := ih fun hi => hb (hi.trans (List.suffix_cons c body).isInfix)
    rw [List.cons_append, List.cons_append, blockEnd?, hbody, Option.map_some, List.any_cons]
    -- a closing mark that starts with the first character would be in the body
    rintro cs rfl hcs
    cases body with
    | nil => cases hcs
    | cons d body =>
      obtain ⟨rfl, -⟩ := List.cons.inj hcs
      exact hb ⟨[], body, rfl⟩

/-- A line without terminators is dropped up to the end of it. -/
theorem dropLine_append {text rest : List Char} (ht : ∀ c ∈ text, isLineTerminator c = false)
    (he : ∀ c, rest.head? = some c → isLineTerminator c = true) :
    dropLine (text ++ rest) = rest := by
  have htext : ∀ c ∈ text, (!isLineTerminator c) = true := fun c hc => by rw [ht c hc]; rfl
  rw [dropLine, List.dropWhile_append_of_pos htext]
  cases rest with
  | nil => rfl
  | cons c rest => simp [he c rfl]

theorem isBlank_of_isLineTerminator {c : Char} (h : isLineTerminator c = true) :
    isBlank c = false := by
  have hmark : c ≠ byteOrderMark := by
    rintro rfl
    cases h
  simp [isBlank, hmark, h]

theorem isLineTerminator_of_isBlank {c : Char} (h : isBlank c = true) :
    isLineTerminator c = false := by
  rw [← Bool.not_eq_true]
  intro hline
  rw [isBlank_of_isLineTerminator hline] at h
  cases h

/-- A mark of a comment to the end of the line starts one, but for the closing mark of an HTML
comment where a token stands before it on the line. -/
theorem OpensLineComment.triviaStart_eq {atStart : Bool} {text : List Char}
    (h : OpensLineComment atStart text) (lineStart : Bool) (rest : List Char) :
    triviaStart atStart lineStart (text ++ rest) = .lineComment ∨
      triviaStart atStart lineStart (text ++ rest) = .none := by
  rcases h with ⟨more, rfl⟩ | ⟨more, rfl⟩ | ⟨more, rfl⟩ | ⟨rfl, more, rfl⟩
  · exact Or.inl rfl
  · exact Or.inl rfl
  · cases lineStart
    · exact Or.inr rfl
    · exact Or.inl rfl
  · exact Or.inl rfl

/-- If skipping gets as far as the end of a gap, it goes on there, with a line terminator crossed if
the gap has one. -/
theorem skipTrivia_gap {after gap : List Char} {atStart : Bool} (h : Gap after atStart gap)
    (lineStart newline : Bool)
    (hfar : (skipTrivia lineStart atStart newline (gap ++ after)).rest <:+ after) :
    skipTrivia lineStart atStart newline (gap ++ after) =
      skipTrivia lineStart (atStart && gap.isEmpty) (newline || gap.any isLineTerminator)
        after := by
  induction h generalizing newline with
  | nil => simp
  | @blank atStart c gap hc h ih =>
    have hstart : triviaStart atStart (lineStart || newline) (c :: (gap ++ after)) = .blank := by
      simp [triviaStart, hc]
    have hskip : skipTrivia lineStart atStart newline (c :: gap ++ after) =
        skipTrivia lineStart false newline (gap ++ after) := by
      rw [List.cons_append, skipTrivia, hstart]
    have hline := isLineTerminator_of_isBlank hc
    rw [hskip] at hfar ⊢
    rw [ih newline hfar]
    simp [hline]
  | @newline atStart c gap hc h ih =>
    have hstart : triviaStart atStart (lineStart || newline) (c :: (gap ++ after)) = .newline := by
      simp [triviaStart, isBlank_of_isLineTerminator hc, hc]
    have hskip : skipTrivia lineStart atStart newline (c :: gap ++ after) =
        skipTrivia lineStart false true (gap ++ after) := by
      rw [List.cons_append, skipTrivia, hstart]
    rw [hskip] at hfar ⊢
    rw [ih true hfar]
    simp [hc]
  | @lineComment atStart text gap ho ht he h ih =>
    obtain ⟨c, cs, rfl⟩ : ∃ c cs, text = c :: cs := by
      rcases ho with ⟨more, rfl⟩ | ⟨more, rfl⟩ | ⟨more, rfl⟩ | ⟨rfl, more, rfl⟩
      all_goals exact ⟨_, _, rfl⟩
    have htext : (c :: cs).any isLineTerminator = false := List.any_eq_false.2 fun d hd => by
      simp [ht d hd]
    rw [List.append_assoc] at hfar ⊢
    rcases ho.triviaStart_eq (lineStart || newline) (gap ++ after) with hstart | hstart
    · have hskip : skipTrivia lineStart atStart newline (c :: cs ++ (gap ++ after)) =
          skipTrivia lineStart false newline (gap ++ after) := by
        rw [List.cons_append, skipTrivia, ← List.cons_append, hstart]
        dsimp only
        rw [dropLine_append (fun d hd => ht d (List.mem_cons_of_mem c hd)) he]
      rw [hskip] at hfar ⊢
      rw [ih newline hfar, List.any_append, htext]
      simp
    · -- skipping stops at the mark, before the end of the gap
      have hskip : skipTrivia lineStart atStart newline (c :: cs ++ (gap ++ after)) =
          .gap newline (c :: cs ++ (gap ++ after)) := by
        rw [List.cons_append, skipTrivia, ← List.cons_append, hstart]
      rw [hskip] at hfar
      have hlength := hfar.length_le
      simp only [Trivia.rest, List.length_append, List.length_cons] at hlength
      omega
  | @blockComment atStart body gap hb h ih =>
    have hstart : triviaStart atStart (lineStart || newline)
        ('/' :: '*' :: (body ++ ['*', '/'] ++ (gap ++ after))) = .blockComment := rfl
    have hskip : skipTrivia lineStart atStart newline
          (['/', '*'] ++ body ++ ['*', '/'] ++ gap ++ after) =
        skipTrivia lineStart false (newline || body.any isLineTerminator) (gap ++ after) := by
      have hend := blockEnd?_append hb (gap ++ after)
      simp only [List.cons_append, List.nil_append, List.append_assoc] at hend hstart ⊢
      rw [skipTrivia, hstart]
      dsimp only
      split
      · rename_i hnone
        rw [List.drop_one, List.tail_cons, hend] at hnone
        cases hnone
      · rename_i crossed rest hsome
        rw [List.drop_one, List.tail_cons, hend] at hsome
        obtain ⟨rfl, rfl⟩ := Prod.mk.inj (Option.some.inj hsome)
        rfl
    rw [hskip] at hfar ⊢
    rw [ih _ hfar]
    simp [Bool.or_assoc, isLineTerminator]

end Ecma
