import Ecma.Proofs.Elements
import Mathlib.Data.String.Basic

/-!
# Regular expressions, item by item

The body of a regular expression literal is a sequence of items: characters that stand for
themselves, backslashes with the character behind them, and classes in square brackets, in which a
slash and an opening bracket are characters like others. The scanner remembers one thing only,
whether it is in a class, and still stops at the one slash that closes such a sequence
(`readPattern_eq_done_iff`). So it reads exactly the literals of this grammar, and gives up at the
end of the line otherwise (`regExp_token_iff_items`).
-/

namespace Ecma

/-! ## Sequences of items -/

/-- A text that is a sequence of items. -/
inductive ItemSequence (Item : List Char → Prop) : List Char → Prop where
  | nil : ItemSequence Item []
  | cons {item rest : List Char} (h : Item item) (hrest : ItemSequence Item rest) :
      ItemSequence Item (item ++ rest)

/-- What may stand between the brackets of a class. -/
inductive ClassItem : List Char → Prop where
  | escape {d : Char} (hd : isLineTerminator d = false) : ClassItem ['\\', d]
  | itself {c : Char} (hline : isLineTerminator c = false) (hclose : c ≠ ']') (hback : c ≠ '\\') :
      ClassItem [c]

/-- What a regular expression is made of. -/
inductive PatternItem : List Char → Prop where
  | escape {d : Char} (hd : isLineTerminator d = false) : PatternItem ['\\', d]
  | bracketed {body : List Char} (hbody : ItemSequence ClassItem body) :
      PatternItem ('[' :: body ++ [']'])
  | itself {c : Char} (hline : isLineTerminator c = false) (hslash : c ≠ '/') (hopen : c ≠ '[')
      (hback : c ≠ '\\') : PatternItem [c]

/-- The source starts with a regular expression literal: a slash, the items of its pattern, a slash,
and all characters behind it that may be flags. -/
def StartsRegExp (source pattern flags : List Char) : Prop :=
  ∃ after, source = '/' :: pattern ++ '/' :: flags ++ after ∧ ItemSequence PatternItem pattern ∧
    (∀ c ∈ flags, isIdentifierContinue c = true) ∧ after.head?.any isIdentifierContinue = false

/-- What a pattern goes on with, inside a class or not: inside one, the class comes to its end
first. -/
def PatternTail (inClass : Bool) (text : List Char) : Prop :=
  if inClass then
    ∃ body tail, text = body ++ ']' :: tail ∧ ItemSequence ClassItem body ∧
      ItemSequence PatternItem tail
  else ItemSequence PatternItem text

/-! ## One step of the reader -/

theorem readPattern_slash (cs : List Char) : readPattern false ('/' :: cs) = .done [] cs := by
  have hslash : isLineTerminator '/' = false := rfl
  rw [readPattern.eq_def]
  simp [hslash]

theorem readPattern_escape (inClass : Bool) {d : Char} (hd : isLineTerminator d = false)
    (cs : List Char) :
    readPattern inClass ('\\' :: d :: cs) = (readPattern inClass cs).map ('\\' :: d :: ·) := by
  have hback : isLineTerminator '\\' = false := rfl
  simp [readPattern, hback, hd]

theorem readPattern_itself (inClass : Bool) {c : Char} (hline : isLineTerminator c = false)
    (hslash : c = '/' → inClass = true) (hback : c ≠ '\\') (cs : List Char) :
    readPattern inClass (c :: cs) =
      (readPattern (if c = '[' then true else if c = ']' then false else inClass) cs).map
        (c :: ·) := by
  have hopen : ¬(c = '/' ∧ (!inClass) = true) := by
    rintro ⟨hc, hout⟩
    rw [hslash hc] at hout
    cases hout
  rw [readPattern.eq_def]
  simp only [hline, Bool.false_eq_true, if_false, if_neg hopen, if_neg hback]

/-! ## Items are read -/

/-- A reader that takes each item as it is takes a sequence of them as it is. -/
theorem ItemSequence.read_append {Item : List Char → Prop} {m : Reader (List Char)}
    (hitem : ∀ item, Item item → ∀ cs, m (item ++ cs) = (m cs).map (item ++ ·)) {text : List Char}
    (h : ItemSequence Item text) (cs : List Char) : m (text ++ cs) = (m cs).map (text ++ ·) := by
  induction h with
  | nil =>
    cases hm : m cs <;> simp [Read.map, hm]
  | @cons item rest hi _ ih =>
    rw [List.append_assoc, hitem item hi, ih, Read.map_map]
    congr 1
    funext text
    exact (List.append_assoc item rest text).symm

theorem ClassItem.read_append {item : List Char} (h : ClassItem item) (cs : List Char) :
    readPattern true (item ++ cs) = (readPattern true cs).map (item ++ ·) := by
  cases h with
  | escape hd => exact readPattern_escape true hd cs
  | @itself c hline hclose hback =>
    have hstays : (if c = '[' then true else if c = ']' then false else true) = true := by
      simp [hclose]
    have hread := readPattern_itself true hline (fun _ => rfl) hback cs
    rw [hstays] at hread
    exact hread

theorem PatternItem.read_append {item : List Char} (h : PatternItem item) (cs : List Char) :
    readPattern false (item ++ cs) = (readPattern false cs).map (item ++ ·) := by
  cases h with
  | escape hd => exact readPattern_escape false hd cs
  | @bracketed body hbody =>
    have hopens : readPattern false ('[' :: (body ++ ']' :: cs)) =
        (readPattern true (body ++ ']' :: cs)).map ('[' :: ·) :=
      readPattern_itself false rfl (by decide) (by decide) _
    have hcloses : readPattern true (']' :: cs) = (readPattern false cs).map (']' :: ·) :=
      readPattern_itself true rfl (by decide) (by decide) _
    have hinside := hbody.read_append (fun _ => ClassItem.read_append) (']' :: cs)
    rw [hcloses, Read.map_map] at hinside
    rw [List.append_assoc, List.cons_append, List.singleton_append, hopens, hinside, Read.map_map]
    congr 1
    funext text
    simp
  | @itself c hline hslash hopen hback =>
    have hstays : (if c = '[' then true else if c = ']' then false else false) = false := by
      simp [hopen]
    have hread := readPattern_itself false hline (fun hc => absurd hc hslash) hback cs
    rw [hstays] at hread
    exact hread

/-! ## Only items are read -/

namespace PatternTail

theorem escape {inClass : Bool} {d : Char} {text : List Char} (hd : isLineTerminator d = false)
    (h : PatternTail inClass text) : PatternTail inClass ('\\' :: d :: text) := by
  cases inClass with
  | false => exact .cons (.escape hd) h
  | true =>
    obtain ⟨body, tail, rfl, hbody, htail⟩ := h
    exact ⟨'\\' :: d :: body, tail, rfl, .cons (.escape hd) hbody, htail⟩

/-- The reader is in a class behind an opening bracket, and outside of all behind a closing one. -/
theorem itself {inClass : Bool} {c : Char} {text : List Char} (hline : isLineTerminator c = false)
    (hslash : c = '/' → inClass = true) (hback : c ≠ '\\')
    (h : PatternTail (if c = '[' then true else if c = ']' then false else inClass) text) :
    PatternTail inClass (c :: text) := by
  cases inClass with
  | false =>
    by_cases hopen : c = '['
    · subst hopen
      obtain ⟨body, tail, rfl, hbody, htail⟩ := h
      have hitems := ItemSequence.cons (.bracketed hbody) htail
      rw [List.append_assoc] at hitems
      exact hitems
    · have htext : ItemSequence PatternItem text := by simpa [PatternTail, hopen] using h
      exact .cons (.itself hline (fun hc => nomatch hslash hc) hopen hback) htext
  | true =>
    by_cases hclose : c = ']'
    · subst hclose
      exact ⟨[], text, rfl, .nil, h⟩
    · have htext : PatternTail true text := by simpa [hclose] using h
      obtain ⟨body, tail, rfl, hbody, htail⟩ := htext
      exact ⟨c :: body, tail, rfl, .cons (.itself hline hclose hback) hbody, htail⟩

end PatternTail

theorem patternTail_of_readPattern {inClass : Bool} {cs rest pattern : List Char}
    (h : readPattern inClass cs = .done pattern rest) :
    cs = pattern ++ '/' :: rest ∧ PatternTail inClass pattern := by
  fun_induction readPattern inClass cs generalizing pattern with
  | case1 => cases h
  | case2 => cases h
  | case3 inClass c cs _ hslash =>
    obtain ⟨rfl, hout⟩ := hslash
    cases h
    cases inClass with
    | false => exact ⟨rfl, .nil⟩
    | true => cases hout
  | case4 => cases h
  | case5 => cases h
  | case6 inClass d cs hd _ _ ih =>
    obtain ⟨pattern, hread, rfl⟩ := Read.map_eq_done.1 h
    obtain ⟨rfl, htail⟩ := ih hread
    rw [Bool.not_eq_true] at hd
    exact ⟨rfl, htail.escape hd⟩
  | case7 inClass c cs hline hslash hback inner =>
    rename_i ih
    obtain ⟨pattern, hread, rfl⟩ := Read.map_eq_done.1 h
    obtain ⟨rfl, htail⟩ := ih hread
    rw [Bool.not_eq_true] at hline
    refine ⟨rfl, htail.itself hline (fun hc => ?_) hback⟩
    cases inClass with
    | false => exact absurd ⟨hc, rfl⟩ hslash
    | true => rfl

/-- The body of a regular expression is read exactly as the sequence of its items. -/
theorem readPattern_eq_done_iff {cs rest pattern : List Char} :
    readPattern false cs = .done pattern rest ↔
      cs = pattern ++ '/' :: rest ∧ ItemSequence PatternItem pattern := by
  constructor
  · exact patternTail_of_readPattern
  · rintro ⟨rfl, hitems⟩
    rw [hitems.read_append (fun _ => PatternItem.read_append), readPattern_slash, Read.map,
      List.append_nil]

/-- A reader that gives up does so at the end of the line. -/
theorem readPattern_refused {inClass : Bool} {cs rest : List Char} {complaint : Complaint}
    (h : readPattern inClass cs = .refused complaint rest) :
    complaint = .unterminatedRegExp ∧ ∀ c ∈ rest.head?, isLineTerminator c = true := by
  fun_induction readPattern inClass cs with
  | case1 =>
    cases h
    exact ⟨rfl, by simp⟩
  | case2 _ _ _ hline =>
    cases h
    exact ⟨rfl, by simpa using hline⟩
  | case3 => cases h
  | case4 =>
    cases h
    exact ⟨rfl, by simp⟩
  | case5 _ _ _ hline =>
    cases h
    exact ⟨rfl, by simpa using hline⟩
  | case6 _ _ _ _ _ _ ih => exact ih (Read.map_eq_refused.1 h)
  | case7 _ _ _ _ _ _ _ ih => exact ih (Read.map_eq_refused.1 h)

/-- The reader takes a literal as the grammar has it: the flags are as many as there can be. -/
theorem readRegExp_eq_done_iff {cs after pattern flags : List Char} :
    readRegExp cs = .done (pattern, flags) after ↔
      cs = pattern ++ '/' :: flags ++ after ∧ ItemSequence PatternItem pattern ∧
        (∀ c ∈ flags, isIdentifierContinue c = true) ∧
        after.head?.any isIdentifierContinue = false := by
  constructor
  · intro h
    unfold readRegExp at h
    split at h
    · cases h
    · rename_i rest hread
      cases h
      obtain ⟨rfl, hitems⟩ := readPattern_eq_done_iff.1 hread
      refine ⟨by simp, hitems, fun c hc => List.mem_takeWhile_imp hc, ?_⟩
      have hhead := List.head?_dropWhile_not isIdentifierContinue rest
      cases hrest : (rest.dropWhile isIdentifierContinue).head? with
      | none => rfl
      | some c => simpa [hrest] using hhead
  · rintro ⟨rfl, hitems, hflags, hafter⟩
    have hread : readPattern false (pattern ++ '/' :: flags ++ after) =
        .done pattern (flags ++ after) :=
      readPattern_eq_done_iff.2 ⟨by simp, hitems⟩
    rw [readRegExp, hread]
    dsimp only
    rw [List.takeWhile_append_of_pos hflags, List.dropWhile_append_of_pos hflags]
    cases after with
    | nil => simp
    | cons c after => simp_all

theorem readRegExp_refused {cs rest : List Char} {complaint : Complaint}
    (h : readRegExp cs = .refused complaint rest) :
    complaint = .unterminatedRegExp ∧ ∀ c ∈ rest.head?, isLineTerminator c = true := by
  unfold readRegExp at h
  split at h
  · rename_i hread
    cases h
    exact readPattern_refused hread
  · cases h

/-! ## Regular expression tokens -/

/-- What is read up to the end of a line is the line. -/
theorem textBefore_of_inLine {cs rest : List Char} (h : InLine cs rest)
    (hend : ∀ c ∈ rest.head?, isLineTerminator c = true) :
    textBefore cs rest = cs.takeWhile fun c => !isLineTerminator c := by
  obtain ⟨front, rfl, hfront⟩ := h.exists_front
  have hall : ∀ c ∈ front, (!isLineTerminator c) = true := fun c hc => by rw [hfront c hc]; rfl
  rw [textBefore_append_left, List.takeWhile_append_of_pos hall]
  cases rest with
  | nil => simp
  | cons c rest => simp [hend c rfl]

theorem startsRegExp_iff {cs pattern flags : List Char} :
    StartsRegExp ('/' :: cs) pattern flags ↔
      ∃ after, readRegExp cs = .done (pattern, flags) after := by
  simp only [StartsRegExp, readRegExp_eq_done_iff, List.cons_append, List.cons.injEq, true_and]

namespace Scanner

/-- A slash that opens no comment is no trivia. -/
theorem triviaStart_slash {cs : List Char} (hline : cs.head? ≠ some '/')
    (hblock : cs.head? ≠ some '*') (atStart lineStart : Bool) :
    triviaStart atStart lineStart ('/' :: cs) = .none := by
  have hblank : isBlank '/' = false := by decide
  have hterminator : isLineTerminator '/' = false := rfl
  rw [triviaStart.eq_def]
  simp only [hblank, hterminator, Bool.false_eq_true, if_false]
  split <;> simp_all

/-- Where a slash may open a regular expression, the token is what its reader makes of the text
behind the slash. -/
theorem next_slash {s : Scanner} {cs : List Char} (hrest : s.rest = '/' :: cs)
    (hline : cs.head? ≠ some '/') (hblock : cs.head? ≠ some '*') :
    (s.next .regExp).1.kind =
        (readRegExp cs).kind (fun (p, f) => .regExp (String.ofList p) (String.ofList f)) ∧
      (s.next .regExp).1.raw = String.ofList (textBefore ('/' :: cs) (readRegExp cs).rest) := by
  have hname : isIdentifierStart '/' = false := by decide
  have hlex : lex s.strict .regExp s.nesting ('/' :: cs) = lexRead s.nesting
      (fun (p, f) => .regExp (String.ofList p) (String.ofList f)) (readRegExp cs) := by
    simp [lex, hname]
  have hnext := next_of_token hrest (triviaStart_slash hline hblock) .regExp
  rw [hlex] at hnext
  exact hnext

end Scanner

/-- At a slash that opens no comment, where it may open a regular expression, the next token is a
regular expression with a pattern and flags exactly if the source goes on with a slash, a sequence
of items that is the pattern, a slash, and the flags, which are all characters of identifiers that
follow. Its raw text is then all of that. If no such text stands there, the token is invalid and
takes the rest of the line. -/
theorem regExp_token_iff_items {s : Scanner} {cs : List Char} (hrest : s.rest = '/' :: cs)
    (hline : cs.head? ≠ some '/') (hblock : cs.head? ≠ some '*') :
    (∀ pattern flags : String,
      ((s.next .regExp).1.kind = .regExp pattern flags ↔
        StartsRegExp s.rest pattern.toList flags.toList) ∧
      ((s.next .regExp).1.kind = .regExp pattern flags →
        (s.next .regExp).1.raw = "/" ++ pattern ++ "/" ++ flags)) ∧
    ((∀ pattern flags, ¬StartsRegExp s.rest pattern flags) →
      (s.next .regExp).1.kind = .invalid .unterminatedRegExp ∧
      (s.next .regExp).1.raw =
        String.ofList (s.rest.takeWhile fun c => !isLineTerminator c)) := by
  obtain ⟨hkind, hraw⟩ := Scanner.next_slash hrest hline hblock
  rw [hkind, hraw, hrest]
  simp only [startsRegExp_iff]
  cases hread : readRegExp cs with
  | done found after =>
    obtain ⟨pattern, flags⟩ := found
    obtain ⟨rfl, -⟩ := readRegExp_eq_done_iff.1 hread
    have htext : textBefore ('/' :: (pattern ++ '/' :: flags ++ after)) after =
        '/' :: (pattern ++ '/' :: flags) := by
      rw [← List.cons_append, textBefore_append_left]
    refine ⟨fun pattern' flags' => ⟨?_, fun h => ?_⟩, fun hnone => ?_⟩
    · rw [Read.kind, TokenKind.regExp.injEq, String.ofList_eq, String.ofList_eq]
      simp
    · obtain ⟨rfl, rfl⟩ := TokenKind.regExp.inj h
      rw [Read.rest_done, htext]
      simp [String.ofList_append, String.ofList_cons, String.append_assoc]
    · exact absurd ⟨after, rfl⟩ (hnone pattern flags)
  | refused complaint rest =>
    obtain ⟨rfl, hend⟩ := readRegExp_refused hread
    have hinLine := onLine_readRegExp cs
    rw [hread, Read.rest_refused] at hinLine
    rw [Read.kind, Read.rest_refused, textBefore_of_inLine (.cons rfl hinLine) hend]
    exact ⟨fun pattern flags => ⟨⟨nofun, nofun⟩, nofun⟩, fun _ => ⟨rfl, rfl⟩⟩

/-- A slash and a closing bracket in a class and a slash behind a backslash do not close the
literal, and a class that is never closed leaves it without an end on its line. -/
theorem regExp_token_iff_items_class :
    let closed := Scanner.ofString "/[/\\][]+\\//u]" false
    let unclosed := Scanner.ofString "/[a/b\\]/\u2028/" false
    StartsRegExp closed.rest "[/\\][]+\\/".toList "u".toList ∧
      (closed.next .regExp).1.raw = "/[/\\][]+\\//u" ∧
      (∀ pattern flags, ¬StartsRegExp unclosed.rest pattern flags) ∧
      (unclosed.next .regExp).1.raw = "/[a/b\\]/" := by
  intro closed unclosed
  have hrest : closed.rest = '/' :: closed.rest.drop 1 := by decide +kernel
  have hkind : (closed.next .regExp).1.kind = .regExp "[/\\][]+\\/" "u" := by decide +kernel
  obtain ⟨hiff, hraw⟩ := (regExp_token_iff_items hrest (by decide +kernel)
    (by decide +kernel)).1 "[/\\][]+\\/" "u"
  have hrest' : unclosed.rest = '/' :: unclosed.rest.drop 1 := by decide +kernel
  have hinvalid : (unclosed.next .regExp).1.kind.isInvalid = true := by decide +kernel
  obtain ⟨hnone, hline⟩ := regExp_token_iff_items hrest' (by decide +kernel) (by decide +kernel)
  have hno : ∀ pattern flags, ¬StartsRegExp unclosed.rest pattern flags := by
    intro pattern flags h
    have hregExp := (hnone (String.ofList pattern) (String.ofList flags)).1.2 (by simpa using h)
    rw [hregExp] at hinvalid
    cases hinvalid
  refine ⟨hiff.1 hkind, (hraw hkind).trans (by decide +kernel), hno, ?_⟩
  exact (hline hno).2.trans (by decide +kernel)

end Ecma
