import Ecma.Proofs.Spelling
import Ecma.Proofs.Tiling

/-!
# The longest punctuator

Where a punctuator starts, the token is the one with the longest spelling that the source starts
with (`punctuator_token_longest`). An optional chain mark counts only where no digit follows it.
That reading runs no further than the source goes is known from the spellings
(`Punctuator.readFrom?_fits`); that it does not stop short is shown for each spelling in turn, with
any text behind it (`Punctuator.readFrom?_append`).
-/

namespace Ecma

namespace Punctuator

/-- The source starts with the spelling of a punctuator; an optional chain mark is none before a
digit. -/
def Fits (p : Punctuator) (source : List Char) : Prop :=
  ∃ after, source = p.spelling.toList ++ after ∧
    (p = .optionalChain → after.head?.any isDecimalDigit = false)

/-- No other punctuator that the source starts with has a longer spelling. -/
structure IsLongest (p : Punctuator) (source : List Char) : Prop where
  fits : p.Fits source
  longest : ∀ q : Punctuator, q.Fits source → q.spelling.length ≤ p.spelling.length

/-- The spelling of a punctuator begins with the character. -/
def Begins (c : Char) : Prop := ∃ p : Punctuator, p.spelling.toList.head? = some c

theorem mem_all (p : Punctuator) : p ∈ all := by
  cases p <;> decide

instance (c : Char) : Decidable (Begins c) :=
  decidable_of_iff (∃ p ∈ all, p.spelling.toList.head? = some c)
    ⟨fun ⟨p, _, hp⟩ => ⟨p, hp⟩, fun ⟨p, hp⟩ => ⟨p, mem_all p, hp⟩⟩

/-! ## At most one is the longest -/

/-- A punctuator is told by its spelling. -/
theorem spelling_injective {p q : Punctuator} (h : p.spelling.toList = q.spelling.toList) :
    p = q := by
  obtain ⟨c, cs, hp, hread⟩ := readFrom?_space p []
  obtain ⟨d, ds, hq, hread'⟩ := readFrom?_space q []
  obtain ⟨rfl, rfl⟩ := List.cons.inj (hp.symm.trans (h.trans hq))
  rw [hread] at hread'
  exact congrArg Prod.fst (Option.some.inj hread')

theorem IsLongest.unique {p q : Punctuator} {source : List Char} (hp : p.IsLongest source)
    (hq : q.IsLongest source) : q = p := by
  obtain ⟨after, hafter, -⟩ := hp.fits
  obtain ⟨after', hafter', -⟩ := hq.fits
  have hlength : q.spelling.toList.length = p.spelling.toList.length := by
    rw [String.length_toList, String.length_toList]
    exact Nat.le_antisymm (hp.longest q hq.fits) (hq.longest p hp.fits)
  exact spelling_injective (List.append_inj (hafter'.symm.trans hafter) hlength).1

/-! ## Reading does not run past the source -/

theorem readQuestion_digit {cs : List Char} (h : cs.head?.any isDecimalDigit = true) :
    readQuestion ('.' :: cs) = (question, '.' :: cs) := if_pos h

theorem readQuestion_noDigit {cs : List Char} (h : cs.head?.any isDecimalDigit = false) :
    readQuestion ('.' :: cs) = (optionalChain, cs) := if_neg (by rw [h]; decide)

/-- What is read is at the front of the source. -/
theorem readFrom?_fits {c : Char} {cs rest : List Char} {p : Punctuator}
    (h : readFrom? c cs = some (p, rest)) : p.Fits (c :: cs) := by
  refine ⟨rest, readFrom?_spelling h, ?_⟩
  rintro rfl
  have hsource : c :: cs = '?' :: '.' :: rest := readFrom?_spelling h
  obtain ⟨rfl, rfl⟩ := List.cons.inj hsource
  rw [← Bool.not_eq_true]
  intro hdigit
  have hread : some (readQuestion ('.' :: rest)) = some (optionalChain, rest) := h
  rw [readQuestion_digit hdigit] at hread
  cases hread

/-! ## Reading does not stop short -/

theorem readGreater_double_suffix (cs : List Char) : (readGreater ('>' :: cs)).2 <:+ cs := by
  unfold readGreater
  split
  · rename_i cs' heq
    obtain rfl := (List.cons.inj heq).2
    exact (orAssign_suffix ..).trans (List.suffix_cons ..)
  · rename_i cs' _ heq
    obtain rfl := (List.cons.inj heq).2
    exact orAssign_suffix ..
  · rename_i hne
    exact absurd rfl (hne cs)

theorem readFrom?_append_of_single {q : Punctuator} {c : Char} {after : List Char}
    {r : Punctuator × List Char} (hq : q.spelling.toList = [c])
    (hread : readFrom? c after = some r) :
    ∃ c cs r, q.spelling.toList = c :: cs ∧ readFrom? c (cs ++ after) = some r ∧
      r.2 <:+ after :=
  ⟨c, [], r, hq, hread, readFrom?_suffix c after r hread⟩

/-- Whatever follows the spelling of a punctuator, at least the spelling is read. -/
theorem readFrom?_append (q : Punctuator) (after : List Char)
    (hchain : q = .optionalChain → after.head?.any isDecimalDigit = false) :
    ∃ c cs r, q.spelling.toList = c :: cs ∧ readFrom? c (cs ++ after) = some r ∧
      r.2 <:+ after := by
  cases q
  case optionalChain =>
    refine ⟨'?', ['.'], (optionalChain, after), rfl, ?_, List.suffix_rfl⟩
    exact congrArg some (readQuestion_noDigit (hchain rfl))
  case rightShift => exact ⟨_, _, _, rfl, rfl, readGreater_double_suffix after⟩
  -- spellings that an equals sign may be glued to
  case equal | notEqual | exponent | leftShift | unsignedRightShift | logicalAnd | logicalOr
      | nullishCoalescing => exact ⟨_, _, _, rfl, rfl, orAssign_suffix ..⟩
  -- spellings of one character
  case dot | lessThan | greaterThan | plus | minus | star | percent | ampersand | pipe | caret
      | bang | question | assign | slash => exact readFrom?_append_of_single rfl rfl
  -- spellings that nothing can be glued to
  all_goals exact ⟨_, _, _, rfl, rfl, List.suffix_rfl⟩

/-- What is read is the longest punctuator. -/
theorem isLongest_of_readFrom? {c : Char} {cs rest : List Char} {p : Punctuator}
    (h : readFrom? c cs = some (p, rest)) : p.IsLongest (c :: cs) := by
  refine ⟨readFrom?_fits h, ?_⟩
  rintro q ⟨after, hafter, hchain⟩
  obtain ⟨d, ds, r, hq, hread, hsuffix⟩ := readFrom?_append q after hchain
  have hsource : c :: cs = d :: (ds ++ after) := by rw [hafter, hq, List.cons_append]
  obtain ⟨rfl, rfl⟩ := List.cons.inj hsource
  obtain rfl : (p, rest) = r := Option.some.inj (h.symm.trans hread)
  have hlength := congrArg List.length ((readFrom?_spelling h).symm.trans hafter)
  have hle : rest.length ≤ after.length := hsuffix.length_le
  rw [List.length_append, List.length_append, String.length_toList,
    String.length_toList] at hlength
  omega

/-! ## Where punctuators begin -/

/-- Nothing is read exactly where no spelling begins. -/
theorem readFrom?_eq_none_iff {c : Char} {cs : List Char} :
    readFrom? c cs = none ↔ ¬Begins c := by
  constructor
  · rintro hnone ⟨p, hp⟩
    cases p <;> cases hp <;> cases hnone
  · intro hno
    cases h : readFrom? c cs with
    | none => rfl
    | some r =>
      refine absurd ⟨r.1, ?_⟩ hno
      obtain ⟨d, ds, -, hd, -, -⟩ := readFrom?_append r.1 [] fun _ => rfl
      have hsource := readFrom?_spelling h
      rw [hd, List.cons_append] at hsource
      rw [hd, (List.cons.inj hsource).1, List.head?_cons]

/-- Where a punctuator begins, no name, literal or template does, but for the end of a substitution,
a pattern and the point of a number. -/
theorem Begins.lex_eq {c : Char} (h : Begins c) {cs : List Char} {n : Nesting} (strict : Bool)
    (hbrace : c = '\x7d' → n.atSubstitution = false)
    (hdot : c = '.' → cs.head?.any isDecimalDigit = false) :
    lex strict .divide n (c :: cs) = lexPunctuator n c cs := by
  obtain ⟨p, hp⟩ := h
  have hplain : (c == '\\' || isIdentifierStart c) = false ∧ (c == '\'' || c == '"') = false ∧
      (c == '\x60') = false ∧ isDecimalDigit c = false := by
    cases p <;> cases hp <;> decide
  obtain ⟨hname, hquote, htemplate, hdigit⟩ := hplain
  have hsubstitution : (c == '\x7d' && n.atSubstitution) = false := by
    by_cases hc : c = '\x7d'
    · rw [hbrace hc, Bool.and_false]
    · rw [beq_false_of_ne hc, Bool.false_and]
  have hpoint : (isDecimalDigit c || (c == '.' && cs.head?.any isDecimalDigit)) = false := by
    by_cases hc : c = '.'
    · rw [hdigit, hdot hc, Bool.and_false, Bool.false_or]
    · rw [hdigit, beq_false_of_ne hc, Bool.false_and, Bool.false_or]
  have hgoal : (c == '/' && Goal.divide == Goal.regExp) = false := Bool.and_false _
  simp only [lex, hname, hquote, htemplate, hsubstitution, hgoal, hpoint, Bool.false_eq_true,
    if_false]

end Punctuator

theorem kind_lex_ne_punctuator {strict : Bool} {goal : Goal} {n : Nesting} {c : Char}
    {cs : List Char} (hno : ¬Punctuator.Begins c) (p : Punctuator) :
    (lex strict goal n (c :: cs)).kind ≠ .punctuator p := by
  refine kind_lex_of (P := (· ≠ .punctuator p)) (fun _ => nofun) ?_ (fun _ => nofun)
    (fun _ _ _ => nofun) (fun _ _ => nofun) ?_ ?_
  · rintro k hk rfl
    exact hk
  · rintro k rest hread rfl
    exact readNumber_yields strict c cs _ _ hread
  · intro q rest hread
    rw [Punctuator.readFrom?_eq_none_iff.2 hno] at hread
    cases hread

/-- Let a slash divide, and let no brace close a substitution. If a punctuator begins behind the
gap, and not a number with a point, then the token is the one punctuator with the longest spelling
that the source goes on with, and its text is the spelling. If none begins there, the token is no
punctuator. -/
theorem punctuator_token_longest (s : Scanner) {newline : Bool} {source : List Char}
    (hgap : skipTrivia s.lineStart (s.position.offset == 0) false s.rest = .gap newline source)
    (hbrace : source.head? = some '\x7d' → s.nesting.atSubstitution = false) :
    (∀ c cs, source = c :: cs → Punctuator.Begins c →
      (c = '.' → cs.head?.any isDecimalDigit = false) →
      ∃ p : Punctuator, p.IsLongest source ∧ (∀ q : Punctuator, q.IsLongest source → q = p) ∧
        (s.next .divide).1.kind = .punctuator p ∧ (s.next .divide).1.raw = p.spelling) ∧
    ((∀ c, source.head? = some c → ¬Punctuator.Begins c) →
      ∀ p, (s.next .divide).1.kind ≠ .punctuator p) := by
  rw [Scanner.next_of_gap hgap]
  constructor
  · rintro c cs rfl hbegins hdot
    have hlex := hbegins.lex_eq s.strict (fun hc => hbrace (congrArg some hc)) hdot
    cases hread : Punctuator.readFrom? c cs with
    | none => exact absurd hbegins (Punctuator.readFrom?_eq_none_iff.1 hread)
    | some r =>
      obtain ⟨p, rest⟩ := r
      have hlongest := Punctuator.isLongest_of_readFrom? hread
      rw [lexPunctuator, hread] at hlex
      refine ⟨p, hlongest, fun q hq => hlongest.unique hq, ?_, ?_⟩
      · rw [Scanner.finishGap, hlex]
      · rw [Scanner.finishGap, hlex, Punctuator.readFrom?_spelling hread]
        simp only [textBefore_append_left, String.ofList_toList]
  · intro hno p
    cases source with
    | nil =>
      intro hkind
      cases hkind
    | cons c cs => exact kind_lex_ne_punctuator (hno c rfl) p

/-- Behind a comment, a question mark and a number, and no optional chain mark. -/
theorem punctuator_token_longest_question :
    let s := Scanner.ofString "/**/?.5" true
    Punctuator.IsLongest .question ['?', '.', '5'] ∧
      (s.next .divide).1.kind = .punctuator .question ∧ (s.next .divide).1.raw = "?" := by
  intro s
  have hgap : skipTrivia s.lineStart (s.position.offset == 0) false s.rest =
      .gap false ['?', '.', '5'] := by decide +kernel
  have hkind : (s.next .divide).1.kind = .punctuator .question := by decide +kernel
  obtain ⟨htoken, -⟩ := punctuator_token_longest s hgap (by decide)
  obtain ⟨p, hlongest, -, hsame, hraw⟩ := htoken '?' ['.', '5'] rfl (by decide) (by decide)
  obtain rfl : Punctuator.question = p := TokenKind.punctuator.inj (hkind.symm.trans hsame)
  exact ⟨hlongest, hkind, hraw⟩

end Ecma
