import Ecma.Proofs.EscapeGrammar
import Ecma.Proofs.Spacing

/-!
# Strings, element by element

A string literal is a sequence of elements between two quotes, plain characters and escapes, and
stands for the units of its elements, each decoded on its own: `Elements`. That the scanner looks
ahead for the second half of a surrogate pair makes no difference (`readString_lone`), so it reads
exactly the literals of this grammar, with these units (`string_token_iff_elements`).
-/

namespace Ecma

/-! ## Sequences of elements -/

/-- A text before `after` that is a sequence of plain elements and escapes, and the units of all of
them. What is plain, and for which units it stands, may depend on what comes next. -/
inductive Elements (context : EscapeContext)
    (Plain : List Char → List Char → List UInt16 → Prop) (after : List Char) :
    List Char → List UInt16 → Prop where
  | nil : Elements context Plain after [] []
  | plain {text rest : List Char} {units units' : List UInt16}
      (h : Plain (rest ++ after) text units) (hrest : Elements context Plain after rest units') :
      Elements context Plain after (text ++ rest) (units ++ units')
  | escape {text rest : List Char} {units units' : List UInt16}
      (h : Escape context (rest ++ after) text units)
      (hrest : Elements context Plain after rest units') :
      Elements context Plain after ('\\' :: text ++ rest) (units ++ units')

namespace Elements

variable {context : EscapeContext} {Plain : List Char → List Char → List UInt16 → Prop}
  {after text text' : List Char} {units units' : List UInt16}

theorem append (h : Elements context Plain (text' ++ after) text units)
    (h' : Elements context Plain after text' units') :
    Elements context Plain after (text ++ text') (units ++ units') := by
  induction h with
  | nil => exact h'
  | plain hplain _ ih =>
    rw [List.append_assoc, List.append_assoc]
    refine .plain ?_ ih
    rw [List.append_assoc]
    exact hplain
  | escape hescape _ ih =>
    rw [List.append_assoc, List.append_assoc]
    refine .escape ?_ ih
    rw [List.append_assoc]
    exact hescape

theorem single (h : Plain after text units) : Elements context Plain after text units := by
  have helements : Elements context Plain after (text ++ []) (units ++ []) := .plain h .nil
  rwa [List.append_nil, List.append_nil] at helements

theorem singleEscape (h : Escape context after text units) :
    Elements context Plain after ('\\' :: text) units := by
  have helements : Elements context Plain after ('\\' :: text ++ []) (units ++ []) :=
    .escape h .nil
  rwa [List.append_nil, List.append_nil] at helements

end Elements

/-- What is read behind a backslash is a sequence of escapes. -/
theorem elements_of_readEscape {context : EscapeContext} {cs rest : List Char}
    {units : List UInt16} (h : readEscape context cs = .done units rest)
    (Plain : List Char → List Char → List UInt16 → Prop) :
    ∃ text, cs = text ++ rest ∧ Elements context Plain rest ('\\' :: text) units := by
  rcases readEscape_eq_done h with hlone | ⟨first, middle, second, hfirst, hsecond, rfl⟩
  · obtain ⟨text, hcs, hescape⟩ := readLoneEscape_eq_done_iff.1 hlone
    exact ⟨text, hcs, .singleEscape hescape⟩
  · obtain ⟨text, rfl, hescape⟩ := readLoneEscape_eq_done_iff.1 hfirst
    obtain ⟨text', rfl, hescape'⟩ := readLoneEscape_eq_done_iff.1 hsecond
    refine ⟨text ++ '\\' :: text', by simp, ?_⟩
    rw [← List.cons_append]
    exact Elements.append (.singleEscape hescape) (.singleEscape hescape')

/-! ## String literals -/

/-- A character of a string literal that stands for itself. -/
inductive StringChar (quote : Char) (after : List Char) : List Char → List UInt16 → Prop where
  | itself {c : Char} (hquote : c ≠ quote) (hback : c ≠ '\\') (hfeed : c ≠ '\n')
      (hreturn : c ≠ '\r') : StringChar quote after [c] (unitsOfChar c)

/-- The text between the quotes of a string literal of strict or sloppy code, with `after` behind
the closing quote, and the units that it stands for. -/
def StringElements (strict : Bool) (quote : Char) (after text : List Char)
    (units : List UInt16) : Prop :=
  Elements (.ofStrict strict) (StringChar quote) (quote :: after) text units

/-- Each escape may be decoded on its own: whether the one behind it is the second half of a pair
changes neither the units nor what is left. -/
theorem readString_lone {context : EscapeContext} {quote : Char} (hquote : '\\' ≠ quote)
    {cs rest : List Char} {units : List UInt16}
    (h : readLoneEscape context cs = .done units rest) :
    readString context quote ('\\' :: cs) = (readString context quote rest).map (units ++ ·) := by
  rcases readEscape_of_readLoneEscape h with hread | ⟨middle, second, rest', rfl, hsecond, hread⟩
  · exact readString_escape hquote hread
  · rw [readString_escape hquote hread, readString_escape hquote hsecond, Read.map_map]
    congr 1
    funext more
    exact List.append_assoc units second more

theorem readString_char (context : EscapeContext) {quote c : Char} (hquote : c ≠ quote)
    (hback : c ≠ '\\') (hfeed : c ≠ '\n') (hreturn : c ≠ '\r') (cs : List Char) :
    readString context quote (c :: cs) =
      (readString context quote cs).map (unitsOfChar c ++ ·) := by
  rw [readString.eq_def]
  simp only [if_neg hquote, if_neg (not_or.2 ⟨hfeed, hreturn⟩), if_neg hback]

theorem elements_of_readString {context : EscapeContext} {quote : Char} {cs rest : List Char}
    {units : List UInt16} (h : readString context quote cs = .done units rest) :
    ∃ text, cs = text ++ quote :: rest ∧
      Elements context (StringChar quote) (quote :: rest) text units := by
  fun_induction readString context quote cs generalizing units with
  | case1 => cases h
  | case2 cs =>
    cases h
    exact ⟨[], rfl, .nil⟩
  | case3 => cases h
  | case4 => cases h
  | case5 cs first middle hescape hquote hline ih =>
    obtain ⟨more, hread, rfl⟩ := Read.map_eq_done.1 h
    obtain ⟨text, rfl, helements⟩ := ih hread
    obtain ⟨front, rfl, hfront⟩ := elements_of_readEscape hescape (StringChar quote)
    exact ⟨'\\' :: front ++ text, by simp, hfront.append helements⟩
  | case6 c cs hquote hline hback ih =>
    obtain ⟨more, hread, rfl⟩ := Read.map_eq_done.1 h
    obtain ⟨text, rfl, helements⟩ := ih hread
    obtain ⟨hfeed, hreturn⟩ := not_or.1 hline
    exact ⟨c :: text, rfl, .plain (.itself hquote hback hfeed hreturn) helements⟩

theorem Elements.readString_eq {context : EscapeContext} {quote : Char} (hquote : '\\' ≠ quote)
    {text rest : List Char} {units : List UInt16}
    (h : Elements context (StringChar quote) (quote :: rest) text units) :
    readString context quote (text ++ quote :: rest) = .done units rest := by
  induction h with
  | nil => exact readString_quote context quote rest
  | plain hplain _ ih =>
    cases hplain with
    | itself hq hback hfeed hreturn =>
      rw [List.append_assoc, List.singleton_append,
        readString_char context hq hback hfeed hreturn, ih]
      rfl
  | escape hescape _ ih =>
    rw [List.append_assoc, List.cons_append, readString_lone hquote hescape.readLoneEscape_eq, ih]
    rfl

/-- A string literal is read exactly as the sequence of its elements. -/
theorem readString_eq_done_iff {context : EscapeContext} {quote : Char} (hquote : '\\' ≠ quote)
    {cs rest : List Char} {units : List UInt16} :
    readString context quote cs = .done units rest ↔
      ∃ text, cs = text ++ quote :: rest ∧
        Elements context (StringChar quote) (quote :: rest) text units := by
  constructor
  · exact elements_of_readString
  · rintro ⟨text, rfl, h⟩
    exact h.readString_eq hquote

/-! ## String tokens -/

namespace Scanner

/-- Where no trivia starts, the next token is the one at the front. -/
theorem next_of_token {s : Scanner} {c : Char} {cs : List Char} (hrest : s.rest = c :: cs)
    (hstart : ∀ atStart lineStart, triviaStart atStart lineStart (c :: cs) = .none) (goal : Goal) :
    (s.next goal).1.kind = (lex s.strict goal s.nesting (c :: cs)).kind ∧
      (s.next goal).1.raw =
        String.ofList (textBefore (c :: cs) (lex s.strict goal s.nesting (c :: cs)).rest) := by
  have hgap : skipTrivia s.lineStart (s.position.offset == 0) false s.rest =
      .gap false (c :: cs) := by
    rw [hrest, skipTrivia_of_none hstart]
  rw [next_of_gap hgap]
  exact ⟨rfl, rfl⟩

/-- The token at a quote is what the string reader makes of the text behind the quote. -/
theorem next_string {s : Scanner} {quote : Char} {cs : List Char}
    (hquote : quote = '\'' ∨ quote = '"') (hrest : s.rest = quote :: cs) (goal : Goal) :
    (s.next goal).1.kind =
        (readString (.ofStrict s.strict) quote cs).kind (fun units => .string ⟨units⟩) ∧
      (s.next goal).1.raw = String.ofList
        (textBefore (quote :: cs) (readString (.ofStrict s.strict) quote cs).rest) := by
  have hstart : ∀ atStart lineStart, triviaStart atStart lineStart (quote :: cs) = .none := by
    rcases hquote with rfl | rfl
    all_goals exact fun _ _ => rfl
  have hname : (quote == '\\' || isIdentifierStart quote) = false := by
    rcases hquote with rfl | rfl
    all_goals decide
  have hmark : (quote == '\'' || quote == '"') = true := by simpa using hquote
  have hlex : lex s.strict goal s.nesting (quote :: cs) = lexRead s.nesting
      (fun units => .string ⟨units⟩) (readString (.ofStrict s.strict) quote cs) := by
    simp only [lex, hname, hmark, if_true, Bool.false_eq_true, if_false]
  have hnext := next_of_token hrest hstart goal
  rw [hlex] at hnext
  exact hnext

theorem next_string_iff {s : Scanner} {quote : Char} {cs : List Char}
    (hquote : quote = '\'' ∨ quote = '"') (hrest : s.rest = quote :: cs) (goal : Goal)
    {w after : List Char} (hcut : s.rest = w ++ after) {value : Text} :
    (s.next goal).1.kind = .string value ∧ (s.next goal).1.raw = String.ofList w ↔
      readString (.ofStrict s.strict) quote cs = .done value.units after := by
  obtain ⟨hkind, hraw⟩ := next_string hquote hrest goal
  have hsuffix := local_readString (.ofStrict s.strict) quote cs
  rw [hkind, hraw, ← hrest]
  cases hread : readString (.ofStrict s.strict) quote cs with
  | refused complaint rest => exact ⟨nofun, nofun⟩
  | done units rest =>
    rw [hread, Read.rest_done] at hsuffix
    rw [Read.rest_done]
    constructor
    · rintro ⟨hvalue, hw⟩
      obtain rfl : Text.mk units = value := TokenKind.string.inj hvalue
      have hcut' := textBefore_append (hsuffix.trans (List.suffix_cons quote cs))
      rw [← hrest, String.ofList_injective hw] at hcut'
      rw [List.append_cancel_left (hcut'.trans hcut)]
    · intro h
      obtain ⟨rfl, rfl⟩ := Read.done.inj h
      refine ⟨rfl, ?_⟩
      rw [hcut, textBefore_append_left]

end Scanner

/-- At a quote, the next token is a string literal with the value `value` and the raw text `w`
exactly if `w` is a quote, a sequence of elements with the units of `value`, and the same quote
again. If no such text stands there, the token is invalid. -/
theorem string_token_iff_elements {s : Scanner} {quote : Char} {cs : List Char}
    (hquote : quote = '\'' ∨ quote = '"') (hrest : s.rest = quote :: cs) (goal : Goal) :
    (∀ (w after : List Char) (value : Text), s.rest = w ++ after →
      ((s.next goal).1.kind = .string value ∧ (s.next goal).1.raw = String.ofList w ↔
        ∃ text, w = quote :: text ++ [quote] ∧
          StringElements s.strict quote after text value.units)) ∧
    ((∀ text after units, s.rest = quote :: text ++ quote :: after →
        ¬StringElements s.strict quote after text units) →
      (s.next goal).1.kind.isInvalid = true) := by
  have hback : '\\' ≠ quote := by
    rcases hquote with rfl | rfl
    all_goals decide
  constructor
  · intro w after value hcut
    rw [Scanner.next_string_iff hquote hrest goal hcut, readString_eq_done_iff hback]
    rw [hrest] at hcut
    refine exists_congr fun text => and_congr_left' ?_
    have hw : w = quote :: text ++ [quote] ↔ w ++ after = quote :: (text ++ quote :: after) := by
      rw [← List.append_left_inj after]
      simp
    rw [hw, ← hcut, List.cons.injEq]
    exact (and_iff_right rfl).symm
  · intro hnone
    rw [(Scanner.next_string hquote hrest goal).1]
    cases hread : readString (.ofStrict s.strict) quote cs with
    | refused complaint rest => rfl
    | done units rest =>
      obtain ⟨text, rfl, helements⟩ := (readString_eq_done_iff hback).1 hread
      exact absurd helements (hnone text rest units hrest)

/-- A surrogate pair in two notations, a zero before an eight, and a line continuation. -/
theorem string_token_iff_elements_pair :
    let s := Scanner.ofString "'\\uD83D\\u\x7b0DE00\x7d\\08\\\r\n'" false
    let value : Text := ⟨[0xD83D, 0xDE00, 0, 0x38]⟩
    (s.next .regExp).1.kind = .string value ∧
      ∃ text, s.rest = '\'' :: text ++ ['\''] ∧
        StringElements s.strict '\'' [] text value.units := by
  intro s value
  have hrest : s.rest = '\'' :: s.rest.drop 1 := by decide +kernel
  have hkind : (s.next .regExp).1.kind = .string value := by decide +kernel
  have hraw : (s.next .regExp).1.raw = String.ofList s.rest := by decide +kernel
  have hcut : s.rest = s.rest ++ [] := (List.append_nil _).symm
  have hiff := (string_token_iff_elements (Or.inl rfl) hrest .regExp).1 s.rest [] value hcut
  exact ⟨hkind, hiff.1 ⟨hkind, hraw⟩⟩

end Ecma
