import Ecma.Proofs.Lookahead
import Ecma.Token.Quoted
import Ecma.Token.Template

/-!
# Strings and templates end at their marks

An escape may look far ahead, for the second half of a surrogate pair, but never past a mark that
can end a string or a template part (`Reader.Stops`). So a string or a template part that is read to
its end is read the same whatever stands behind it: `exact_readString` and `exact_readTemplate`.
-/

namespace Ecma

open Reader

/-- The marks at which strings and template parts end. -/
def endMarks : List Char := ['\'', '"', '\x60', '$']

/-- An end mark is a digit in no radix. -/
theorem digitValue?_endMark (radix : Nat) {q : Char} (hq : q ∈ endMarks) :
    digitValue? radix q = none := by
  simp only [endMarks, List.mem_cons, List.not_mem_nil, or_false] at hq
  rcases hq with rfl | rfl | rfl | rfl
  all_goals exact if_neg (Nat.lt_irrefl radix)

theorem ne_endMark {c q : Char} (hc : c ∉ endMarks) (hq : q ∈ endMarks) : q ≠ c := by
  rintro rfl
  exact hc hq

/-- The outcome with more text behind what is left. -/
def Read.extend {α : Type} (tail : List Char) : Read α → Read α
  | .done a rest => .done a (rest ++ tail)
  | .refused c rest => .refused c (rest ++ tail)

theorem Read.rest_extend {α : Type} (tail : List Char) (r : Read α) :
    (r.extend tail).rest = r.rest ++ tail := by
  cases r <;> rfl

theorem Read.map_extend {α β : Type} (f : α → β) (tail : List Char) (r : Read α) :
    (r.extend tail).map f = (r.map f).extend tail := by
  cases r <;> rfl

namespace Reader

variable {α β : Type}

/-- Nothing behind an end mark matters, and the mark is left to be read. -/
def Stops (m : Reader α) : Prop := ∀ (cs : List Char) ⦃q : Char⦄, q ∈ endMarks →
  ∃ r : Read α, ∀ tail, m (cs ++ q :: tail) = r.extend (q :: tail)

theorem stops_done (a : α) : Stops fun cs => .done a cs :=
  fun cs _ _ => ⟨.done a cs, fun _ => rfl⟩

theorem stops_refused (c : Complaint) : Stops fun cs => (.refused c cs : Read α) :=
  fun cs _ _ => ⟨.refused c cs, fun _ => rfl⟩

theorem stops_map {m : Reader α} (hm : Stops m) (f : α → β) : Stops fun cs => (m cs).map f := by
  intro cs q hq
  obtain ⟨r, hr⟩ := hm cs hq
  exact ⟨r.map f, fun tail => (congrArg _ (hr tail)).trans (Read.map_extend f _ r)⟩

/-- What such a reader leaves before an end mark it leaves whatever stands behind the mark. -/
theorem Stops.settled {m : Reader α} (hm : Stops m) {q : Char} (hq : q ∈ endMarks)
    {front middle tail : List Char} (h : (m (front ++ (middle ++ q :: tail))).rest =
      middle ++ q :: tail) :
    ∃ r : Read α, r.rest = middle ∧
      ∀ tail', m (front ++ (middle ++ q :: tail')) = r.extend (q :: tail') := by
  obtain ⟨r, hr⟩ := hm (front ++ middle) hq
  simp only [List.append_assoc] at hr
  rw [hr, Read.rest_extend] at h
  exact ⟨r, List.append_cancel_right h, hr⟩

end Reader

/-! ## Escapes -/

theorem stops_readHexDigits (complaint : Complaint) (count value : Nat) :
    Stops (readHexDigits complaint count value) := by
  induction count generalizing value with
  | zero => exact stops_done value
  | succ count ih =>
    intro cs q hq
    cases cs with
    | nil =>
      exact ⟨.refused complaint [], fun _ => by
        simp [readHexDigits, digitValue?_endMark 16 hq, Read.extend]⟩
    | cons c cs =>
      cases hc : digitValue? 16 c with
      | none =>
        exact ⟨.refused complaint (c :: cs), fun _ => by simp [readHexDigits, hc, Read.extend]⟩
      | some d =>
        obtain ⟨r, hr⟩ := ih (value * 16 + d) cs hq
        exact ⟨r, fun tail => by simp only [List.cons_append, readHexDigits, hc, hr tail]⟩

theorem stops_readBracedDigits (value count : Nat) : Stops (readBracedDigits value count) := by
  intro cs q hq
  fun_induction readBracedDigits value count cs with
  | case1 value count =>
    have hbrace : q ≠ '\x7d' := ne_endMark (by decide) hq
    exact ⟨.refused .unicodeEscape [], fun _ => by
      simp [readBracedDigits, hbrace, digitValue?_endMark 16 hq, Read.extend]⟩
  | case2 value cs =>
    exact ⟨.refused .unicodeEscape cs, fun _ => by simp [readBracedDigits, Read.extend]⟩
  | case3 value count cs hcount =>
    exact ⟨.done value cs, fun _ => by simp [readBracedDigits, hcount, Read.extend]⟩
  | case4 value count c cs hc hd =>
    exact ⟨.refused .unicodeEscape (c :: cs), fun _ => by
      simp [readBracedDigits, hc, hd, Read.extend]⟩
  | case5 value count c cs hc d hd hrange =>
    exact ⟨.refused .codePointOutOfRange (c :: cs), fun _ => by
      simp [readBracedDigits, hc, hd, hrange, Read.extend]⟩
  | case6 value count c cs hc d hd hrange ih =>
    obtain ⟨r, hr⟩ := ih
    refine ⟨r, fun tail => ?_⟩
    simp only [List.cons_append, readBracedDigits, if_neg hc, hd, if_neg hrange, hr tail]

theorem stops_readCodePoint : Stops readCodePoint := by
  intro cs q hq
  cases cs with
  | nil =>
    have hbrace : q ≠ '\x7b' := ne_endMark (by decide) hq
    obtain ⟨r, hr⟩ := stops_readHexDigits .unicodeEscape 4 0 [] hq
    exact ⟨r, fun tail => (readCodePoint_of_ne hbrace tail).trans (hr tail)⟩
  | cons c cs =>
    by_cases hc : c = '\x7b'
    · subst hc
      exact stops_readBracedDigits 0 0 cs hq
    · obtain ⟨r, hr⟩ := stops_readHexDigits .unicodeEscape 4 0 (c :: cs) hq
      exact ⟨r, fun tail => (readCodePoint_of_ne hc _).trans (hr tail)⟩

theorem readPairedCodePoint_refused {cs rest : List Char} {c : Complaint}
    (h : readCodePoint cs = .refused c rest) : readPairedCodePoint cs = .refused c rest := by
  simp [readPairedCodePoint, h]

/-- An escape that no low surrogate follows stands alone. -/
theorem readPairedCodePoint_unpaired {cs rest : List Char} {n : Nat}
    (h : readCodePoint cs = .done n rest)
    (hnext : ∀ second low rest', rest = '\\' :: 'u' :: second →
      readCodePoint second = .done low rest' → isUnitOf isLowSurrogate low = false) :
    readPairedCodePoint cs = .done n rest := by
  unfold readPairedCodePoint
  simp only [h]
  split
  · split
    · rename_i second
      split
      · rename_i low rest' hlow
        rw [if_neg]
        rw [hnext second low rest' rfl hlow]
        exact Bool.false_ne_true
      · rfl
    · rfl
  · rfl

/-- Where two characters stand before an end mark that is neither of them, they stand in the text
before the mark. -/
theorem exists_of_append_endMark {q a b : Char} (ha : q ≠ a) (hb : q ≠ b)
    {front tail second : List Char} (h : front ++ q :: tail = a :: b :: second) :
    ∃ middle, front = a :: b :: middle ∧ second = middle ++ q :: tail := by
  match front with
  | [] => exact absurd (List.cons.inj h).1 ha
  | [_] => exact absurd (List.cons.inj (List.cons.inj h).2).1 hb
  | c :: d :: middle =>
    simp only [List.cons_append, List.cons.injEq] at h
    obtain ⟨rfl, rfl, rfl⟩ := h
    exact ⟨middle, rfl, rfl⟩

theorem stops_readPairedCodePoint : Stops readPairedCodePoint := by
  intro cs q hq
  have hback : q ≠ '\\' := ne_endMark (by decide) hq
  have hu : q ≠ 'u' := ne_endMark (by decide) hq
  obtain ⟨r, hr⟩ := stops_readCodePoint cs hq
  cases r with
  | refused c rest => exact ⟨.refused c rest, fun tail => readPairedCodePoint_refused (hr tail)⟩
  | done n rest =>
    by_cases hn : isUnitOf isHighSurrogate n = true
    · by_cases hpair : ∃ second low rest', rest = '\\' :: 'u' :: second ∧
        isUnitOf isLowSurrogate low = true ∧
        ∀ tail, readCodePoint (second ++ q :: tail) = .done low (rest' ++ q :: tail)
      · obtain ⟨second, low, rest', rfl, hlow, hsecond⟩ := hpair
        exact ⟨.done _ rest', fun tail => readPairedCodePoint_pair (hr tail) hn (hsecond tail) hlow⟩
      · refine ⟨.done n rest, fun tail => readPairedCodePoint_unpaired (hr tail) ?_⟩
        intro second low rest' hrest hsecond
        obtain ⟨middle, rfl, rfl⟩ := exists_of_append_endMark hback hu hrest
        -- the escape behind is looked at, but not past the mark
        obtain ⟨r', hr'⟩ := stops_readCodePoint middle hq
        rw [← Bool.not_eq_true]
        intro hlow
        rw [hr' tail] at hsecond
        cases r' with
        | refused c rest' => cases hsecond
        | done low' rest'' =>
          cases hsecond
          exact hpair ⟨middle, low, rest'', rfl, hlow, hr'⟩
    · rw [Bool.not_eq_true] at hn
      exact ⟨.done n rest, fun tail => readPairedCodePoint_single (hr tail) hn⟩

theorem readOctalDigits_endMark (count value : Nat) (cs : List Char) {q : Char}
    (hq : q ∈ endMarks) :
    ∃ n rest, ∀ tail, readOctalDigits count value (cs ++ q :: tail) = (n, rest ++ q :: tail) := by
  induction count generalizing value cs with
  | zero => exact ⟨value, cs, fun _ => rfl⟩
  | succ count ih =>
    cases cs with
    | nil => exact ⟨value, [], fun tail => by simp [readOctalDigits, digitValue?_endMark 8 hq]⟩
    | cons c cs =>
      cases hc : digitValue? 8 c with
      | none => exact ⟨value, c :: cs, fun tail => by simp [readOctalDigits, hc]⟩
      | some d =>
        obtain ⟨n, rest, h⟩ := ih (value * 8 + d) cs
        exact ⟨n, rest, fun tail => by simp only [List.cons_append, readOctalDigits, hc, h tail]⟩

theorem head?_append_cons (cs : List Char) (q : Char) (tail tail' : List Char) :
    (cs ++ q :: tail).head? = (cs ++ q :: tail').head? := by
  cases cs <;> rfl

theorem stops_readOctalEscape (context : EscapeContext) (first : Nat) :
    Stops (readOctalEscape context first) := by
  intro cs q hq
  have hhead := fun tail => head?_append_cons cs q tail []
  by_cases hzero : first = 0 ∧ !(cs ++ [q]).head?.any isDecimalDigit
  · exact ⟨.done [0] cs, fun tail => by simp only [readOctalEscape, hhead tail, if_pos hzero]; rfl⟩
  · cases hcontext : context.octalComplaint? with
    | some complaint =>
      exact ⟨.refused complaint cs, fun tail => by
        simp only [readOctalEscape, hhead tail, if_neg hzero, hcontext]; rfl⟩
    | none =>
      obtain ⟨n, rest, h⟩ := readOctalDigits_endMark (if first ≤ 3 then 2 else 1) first cs hq
      exact ⟨.done [UInt16.ofNat n] rest, fun tail => by
        simp only [readOctalEscape, hhead tail, if_neg hzero, hcontext, h tail]; rfl⟩

theorem afterLineTerminator_of_ne (c : Char) {d : Char} (hd : d ≠ '\n') (cs : List Char) :
    afterLineTerminator c (d :: cs) = d :: cs := by
  unfold afterLineTerminator
  split
  · rename_i heq
    exact absurd (List.cons.inj heq).1 hd
  · rfl

theorem stops_afterLineTerminator {α : Type} (a : α) (c : Char) :
    Stops fun cs => .done a (afterLineTerminator c cs) := by
  intro cs q hq
  have hleft : ∀ {tail left : List Char}, afterLineTerminator c (cs ++ q :: tail) = left →
      (.done a (afterLineTerminator c (cs ++ q :: tail)) : Read α) = .done a left :=
    congrArg (Read.done a)
  have hline : q ≠ '\n' := ne_endMark (by decide) hq
  cases cs with
  | nil => exact ⟨.done a [], fun tail => hleft (afterLineTerminator_of_ne c hline tail)⟩
  | cons d cs =>
    by_cases hd : d = '\n'
    · subst hd
      by_cases hc : c = '\r'
      · exact ⟨.done a cs, fun tail => hleft (if_pos hc)⟩
      · exact ⟨.done a ('\n' :: cs), fun tail => hleft (if_neg hc)⟩
    · exact ⟨.done a (d :: cs), fun tail => hleft (afterLineTerminator_of_ne c hd _)⟩

/-- Behind its first character, an escape does not look past an end mark. -/
theorem stops_readEscape (context : EscapeContext) (c : Char) :
    Stops fun cs => readEscape context (c :: cs) := by
  simp only [readEscape]
  split
  · exact stops_done _
  split
  · exact stops_readOctalEscape context _
  split
  · split
    · exact stops_refused _
    · exact stops_done _
  split
  · exact stops_map (stops_readHexDigits _ _ _) _
  split
  · exact stops_map stops_readPairedCodePoint _
  split
  · exact stops_afterLineTerminator [] c
  · exact stops_done _

/-- An escape that leaves an end mark to be read is read the same whatever stands behind the mark.
-/
theorem readEscape_settled {context : EscapeContext} {q : Char} (hq : q ∈ endMarks)
    {cs body tail : List Char} (h : (readEscape context cs).rest = body ++ q :: tail) :
    ∃ front, cs = front ++ (body ++ q :: tail) ∧ ∃ r : Read (List UInt16), r.rest = body ∧
      ∀ tail', readEscape context (front ++ (body ++ q :: tail')) = r.extend (q :: tail') := by
  cases cs with
  | nil => exact absurd h (by simp [readEscape])
  | cons c cs =>
    obtain ⟨front, rfl⟩ : ∃ front, cs = front ++ (body ++ q :: tail) := by
      obtain ⟨front, hfront⟩ := rest_readEscape_suffix context c cs
      rw [h] at hfront
      exact ⟨front, hfront.symm⟩
    obtain ⟨r, hrest, hr⟩ := (stops_readEscape context c).settled hq h
    exact ⟨c :: front, rfl, r, hrest, hr⟩

/-! ## Strings and templates -/

/-- What is read ends at an end mark and what belongs to it, and nothing behind that matters. -/
def Reader.Enclosed {α : Type} (m : Reader α) : Prop :=
  ∀ ⦃cs rest : List Char⦄ ⦃a : α⦄, m cs = .done a rest →
    ∃ body q close, q ∈ endMarks ∧ cs = body ++ q :: (close ++ rest) ∧
      ∀ rest', m (body ++ q :: (close ++ rest')) = .done a rest'

theorem Reader.Enclosed.exact {α : Type} {m : Reader α} (h : Enclosed m) : Exact m := by
  intro cs rest a hread
  obtain ⟨body, q, close, -, rfl, hbody⟩ := h hread
  refine ⟨body ++ q :: close, by simp, fun rest' => ?_⟩
  rw [List.append_assoc]
  exact hbody rest'

theorem readString_quote (context : EscapeContext) (quote : Char) (cs : List Char) :
    readString context quote (quote :: cs) = .done [] cs := by
  rw [readString.eq_def]
  simp only [if_true]

theorem readString_escape {context : EscapeContext} {quote : Char} {cs rest : List Char}
    {units : List UInt16} (hquote : '\\' ≠ quote) (h : readEscape context cs = .done units rest) :
    readString context quote ('\\' :: cs) = (readString context quote rest).map (units ++ ·) := by
  rw [readString.eq_def]
  simp only [if_neg hquote]
  split
  · rename_i hline
    exact absurd hline (by decide)
  rw [if_pos trivial]
  split
  · rename_i hrefused
    rw [h] at hrefused
    cases hrefused
  · rename_i hread
    rw [h] at hread
    cases hread
    rfl

theorem enclosed_readString (context : EscapeContext) {quote : Char} (hq : quote ∈ endMarks) :
    Enclosed (readString context quote) := by
  intro cs rest units h
  fun_induction readString context quote cs generalizing units with
  | case1 => cases h
  | case2 cs =>
    cases h
    exact ⟨[], quote, [], hq, rfl, readString_quote context quote⟩
  | case3 => cases h
  | case4 => cases h
  | case5 cs units' middle hescape hquote hline ih =>
    obtain ⟨units'', hread, rfl⟩ := Read.map_eq_done.1 h
    obtain ⟨body, q, close, hmark, rfl, hbody⟩ := ih hread
    obtain ⟨front, rfl, r, hrest, hr⟩ := readEscape_settled hmark (congrArg Read.rest hescape)
    rw [hr] at hescape
    cases r with
    | refused c left => cases hescape
    | done units left =>
      obtain rfl : left = body := hrest
      cases hescape
      refine ⟨'\\' :: (front ++ left), q, close, hmark, by simp, fun rest' => ?_⟩
      rw [List.cons_append, List.append_assoc, readString_escape hquote (hr _)]
      exact Read.map_eq_done.2 ⟨units'', hbody rest', rfl⟩
  | case6 c cs hquote hline hback ih =>
    obtain ⟨units', hread, rfl⟩ := Read.map_eq_done.1 h
    obtain ⟨body, q, close, hmark, rfl, hbody⟩ := ih hread
    refine ⟨c :: body, q, close, hmark, rfl, fun rest' => ?_⟩
    rw [List.cons_append, readString.eq_def]
    simp only [if_neg hquote, if_neg hline, if_neg hback, hbody rest']
    rfl

theorem readTemplate_escape (cs : List Char) :
    readTemplate ('\\' :: cs) = (readTemplate (readEscape .template cs).rest).map
      (.consEscape (readEscape .template cs) (textBefore cs (readEscape .template cs).rest)) := by
  rw [readTemplate.eq_def]
  simp only [if_true]
  rw [if_neg (by decide)]

theorem readTemplate_return (cs : List Char) :
    readTemplate ('\r' :: cs) = (readTemplate (afterLineTerminator '\r' cs)).map (.cons '\n') := by
  rw [readTemplate.eq_def]
  simp only [if_true]
  rw [if_neg (by decide), if_neg (by decide)]

/-- Of the outcome of an escape, a template part keeps the units alone. -/
theorem consEscape_extend (r : Read (List UInt16)) (tail source : List Char) :
    TemplateBody.consEscape (r.extend tail) source = TemplateBody.consEscape r source := by
  cases r <;> rfl

theorem enclosed_readTemplate : Enclosed readTemplate := by
  intro cs rest part h
  fun_induction readTemplate cs generalizing part with
  | case1 => cases h
  | case2 cs =>
    cases h
    refine ⟨[], '\x60', [], by decide, rfl, fun rest' => ?_⟩
    rw [List.nil_append, readTemplate.eq_def]
    simp only [if_true, List.nil_append]
  | case3 cs escape hmark =>
    rename_i ih
    obtain ⟨part', hread, rfl⟩ := Read.map_eq_done.1 h
    obtain ⟨body, q, close, hq, hrest, hbody⟩ := ih hread
    obtain ⟨front, rfl, r, rfl, hr⟩ := readEscape_settled hq hrest
    refine ⟨'\\' :: (front ++ r.rest), q, close, hq, by simp, fun rest' => ?_⟩
    rw [List.cons_append, List.append_assoc, readTemplate_escape, hr, Read.rest_extend, hbody rest',
      textBefore_append_left, consEscape_extend]
    have hescape : escape = r.extend (q :: (close ++ rest)) := hr (close ++ rest)
    rw [hescape, Read.rest_extend, textBefore_append_left, consEscape_extend]
    rfl
  | case4 cs hmark hback ih =>
    obtain ⟨part', hread, rfl⟩ := Read.map_eq_done.1 h
    obtain ⟨body, q, close, hq, hrest, hbody⟩ := ih hread
    obtain ⟨front, rfl⟩ : ∃ front, cs = front ++ (body ++ q :: (close ++ rest)) := by
      obtain ⟨front, hfront⟩ := afterLineTerminator_suffix '\r' cs
      rw [hrest] at hfront
      exact ⟨front, hfront.symm⟩
    obtain ⟨r, rfl, hr⟩ := (stops_afterLineTerminator () '\r').settled hq hrest
    refine ⟨'\r' :: (front ++ r.rest), q, close, hq, by simp, fun rest' => ?_⟩
    have hafter := congrArg Read.rest (hr (close ++ rest'))
    rw [Read.rest_done, Read.rest_extend] at hafter
    rw [List.cons_append, List.append_assoc, readTemplate_return, hafter, hbody rest']
    rfl
  | case5 c cs hmark hback hreturn hopen =>
    cases h
    obtain ⟨rfl, hbrace⟩ := hopen
    obtain ⟨rest, rfl⟩ := List.head?_eq_some_iff.1 hbrace
    refine ⟨[], '$', ['\x7b'], by decide, rfl, fun rest' => ?_⟩
    rw [List.nil_append, readTemplate.eq_def]
    simp [hmark, hback, hreturn]
  | case6 c cs hmark hback hreturn hopen ih =>
    obtain ⟨part', hread, rfl⟩ := Read.map_eq_done.1 h
    obtain ⟨body, q, close, hq, rfl, hbody⟩ := ih hread
    refine ⟨c :: body, q, close, hq, rfl, fun rest' => ?_⟩
    rw [head?_append_cons body q _ (close ++ rest')] at hopen
    rw [List.cons_append, readTemplate.eq_def]
    simp only [if_neg hmark, if_neg hback, if_neg hreturn, if_neg hopen, hbody rest']
    rfl

end Ecma
