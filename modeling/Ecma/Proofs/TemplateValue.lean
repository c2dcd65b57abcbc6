import Ecma.Proofs.Elements
import Ecma.Proofs.Nesting

/-!
# Raw and cooked templates

A template part has two values. The raw one is its text with line ends normalised, although the text
is normalised piece by piece: no piece ends inside a line end. The cooked one is that of its
elements, characters and escapes read from left to right, and there is none if one of the escapes is
malformed. Where a malformed escape is left, and how the text goes on from there, matters to neither
(`template_token_values`).
-/

namespace Ecma

/-! ## Line ends -/

theorem normalizeLines_cons {c : Char} {cs : List Char} (h : ¬(c = '\r' ∧ cs.head? = some '\n')) :
    normalizeLines (c :: cs) = (if c = '\r' then '\n' else c) :: normalizeLines cs := by
  rw [normalizeLines.eq_def]
  split
  · rename_i heq
    cases heq
  · rename_i rest heq
    obtain ⟨rfl, rfl⟩ := List.cons.inj heq
    exact absurd ⟨rfl, rfl⟩ h
  · rename_i heq
    obtain ⟨rfl, rfl⟩ := List.cons.inj heq
    rfl

/-- Line ends may be normalised piece by piece where no piece ends inside one. -/
theorem normalizeLines_append {front back : List Char}
    (h : ¬(front.getLast? = some '\r' ∧ back.head? = some '\n')) :
    normalizeLines (front ++ back) = normalizeLines front ++ normalizeLines back := by
  fun_induction normalizeLines front with
  | case1 => rfl
  | case2 front ih =>
    have hfront : ¬(front.getLast? = some '\r' ∧ back.head? = some '\n') := by
      rintro ⟨hlast, hhead⟩
      refine h ⟨?_, hhead⟩
      rw [List.getLast?_cons_cons, List.getLast?_cons, hlast]
      rfl
    simp only [List.cons_append, normalizeLines, ih hfront]
  | case3 c front hpair ih =>
    have hfront : ¬(front.getLast? = some '\r' ∧ back.head? = some '\n') := by
      rintro ⟨hlast, hhead⟩
      refine h ⟨?_, hhead⟩
      rw [List.getLast?_cons, hlast]
      rfl
    have hnext : ¬(c = '\r' ∧ (front ++ back).head? = some '\n') := by
      rintro ⟨rfl, hhead⟩
      cases front with
      | nil => exact h ⟨rfl, hhead⟩
      | cons d front => exact hpair front rfl (congrArg (· :: front) (Option.some.inj hhead))
    rw [List.cons_append, normalizeLines_cons hnext, ih hfront]
    rfl

/-! ## Elements of a template -/

/-- A character of a template part that stands for itself, or a carriage return, alone or with a
line feed, that stands for a line feed. -/
inductive TemplateChar (after : List Char) : List Char → List UInt16 → Prop where
  | itself {c : Char} (hmark : c ≠ '\x60') (hback : c ≠ '\\') (hreturn : c ≠ '\r')
      (hopen : ¬(c = '$' ∧ after.head? = some '\x7b')) : TemplateChar after [c] (unitsOfChar c)
  | lineEnd : TemplateChar after ['\r', '\n'] [0x0A]
  | lineReturn (h : after.head? ≠ some '\n') : TemplateChar after ['\r'] [0x0A]

/-- The text of a template part before `after`, if all its escapes are well formed, and the units
that it stands for. -/
def TemplateElements (after text : List Char) (units : List UInt16) : Prop :=
  Elements .template TemplateChar after text units

/-- Behind characters and well-formed escapes, a backslash in the text starts no escape. -/
def HasMalformedEscape (after text : List Char) : Prop :=
  ∃ front back units, text = front ++ '\\' :: back ∧
    TemplateElements ('\\' :: back ++ after) front units ∧
    ∀ escape rest units', back ++ after = escape ++ rest →
      ¬Escape .template rest escape units'

/-- The cooked value of a text before `after`, or that it has none. -/
def IsCooked (after text : List Char) : Option (List UInt16) → Prop
  | some units => TemplateElements after text units
  | none => HasMalformedEscape after text

theorem IsCooked.append {after front text : List Char} {units : List UInt16}
    {cooked : Option (List UInt16)} (hfront : TemplateElements (text ++ after) front units)
    (h : IsCooked after text cooked) :
    IsCooked after (front ++ text) (cooked.map (units ++ ·)) := by
  cases cooked with
  | some more => exact Elements.append hfront h
  | none =>
    obtain ⟨front', back, units', rfl, helements, hnone⟩ := h
    refine ⟨front ++ front', back, units ++ units', by simp, ?_, hnone⟩
    rw [List.append_assoc] at hfront
    exact Elements.append hfront helements

/-- What ends a template part: a backtick, or the opening of a substitution. -/
def closingMark (closed : Bool) : List Char := if closed then ['\x60'] else ['$', '\x7b']

/-- A line break that starts with a carriage return stands for a line feed, and is whole. -/
theorem templateChar_lineEnd {after front cs : List Char} (h : LineBreak after front)
    (hfront : '\r' :: cs = front ++ after) :
    TemplateChar after front (unitsOfChar '\n') ∧ normalizeLines front = ['\n'] ∧
      ¬(front.getLast? = some '\r' ∧ after.head? = some '\n') := by
  cases h with
  | pair => exact ⟨.lineEnd, rfl, fun hparts => absurd hparts.1 (by decide)⟩
  | @single c hc hpair =>
    obtain rfl : '\r' = c := (List.cons.inj hfront).1
    exact ⟨.lineReturn fun hnext => hpair ⟨rfl, hnext⟩, rfl, fun hparts => hpair ⟨rfl, hparts.2⟩⟩

theorem head?_of_append {front back : List Char} {c : Char} (h : front.head? = some c) :
    (front ++ back).head? = some c := by
  rw [List.head?_append, h]
  rfl

/-- An escape in front of a template part, well formed or not: it does not end inside a line end,
and only if it is well formed there is still a cooked value. -/
theorem isCooked_consEscape {source text after : List Char} {b : TemplateBody}
    (hrest : (readEscape .template (source ++ (text ++ after))).rest = text ++ after)
    (hraw : b.raw = normalizeLines text) (hcooked : IsCooked after text b.cooked) :
    (b.consEscape (readEscape .template (source ++ (text ++ after))) source).raw =
        normalizeLines ('\\' :: source ++ text) ∧
      IsCooked after ('\\' :: source ++ text)
        (b.consEscape (readEscape .template (source ++ (text ++ after))) source).cooked := by
  constructor
  · have hcut := cleanCut_readEscape .template (source ++ (text ++ after))
    rw [hrest] at hcut
    have hparts : ¬(source.getLast? = some '\r' ∧ text.head? = some '\n') := by
      rintro ⟨hlast, hhead⟩
      exact hcut.not_parts ⟨hlast, head?_of_append hhead⟩
    have hback : ¬(('\\' : Char) = '\r' ∧ (source ++ text).head? = some '\n') :=
      fun hpair => absurd hpair.1 (by decide)
    rw [List.cons_append, normalizeLines_cons hback, if_neg (by decide),
      normalizeLines_append hparts, ← hraw]
    rfl
  · cases hescape : readEscape .template (source ++ (text ++ after)) with
    | done units rest =>
      rw [hescape] at hrest
      obtain rfl : rest = text ++ after := hrest
      obtain ⟨front, hfront, helements⟩ := elements_of_readEscape hescape TemplateChar
      obtain rfl : source = front := List.append_cancel_right hfront
      exact IsCooked.append helements hcooked
    | refused complaint rest =>
      refine ⟨[], source ++ text, [], rfl, .nil, fun escape rest' units hcut => ?_⟩
      rw [List.append_assoc] at hcut
      exact not_escape_of_refused hescape hcut

/-- What is read of a template part is its text, normalised, and its cooked value. -/
theorem isCooked_of_readTemplate {cs rest : List Char} {b : TemplateBody}
    (h : readTemplate cs = .done b rest) :
    ∃ text, cs = text ++ (closingMark b.closed ++ rest) ∧ b.raw = normalizeLines text ∧
      IsCooked (closingMark b.closed ++ rest) text b.cooked := by
  fun_induction readTemplate cs generalizing b with
  | case1 => cases h
  | case2 cs =>
    cases h
    exact ⟨[], rfl, rfl, .nil⟩
  | case3 cs escape hmark =>
    rename_i ih
    obtain ⟨b, hread, rfl⟩ := Read.map_eq_done.1 h
    obtain ⟨text, hrest, hraw, hcooked⟩ := ih hread
    obtain ⟨source, hsource⟩ : escape.rest <:+ cs := local_readEscape .template cs
    have htext : textBefore cs escape.rest = source := by
      have hleft := textBefore_append_left source escape.rest
      rwa [hsource] at hleft
    rw [htext]
    rw [hrest] at hsource
    subst hsource
    obtain ⟨hraw', hcooked'⟩ := isCooked_consEscape hrest hraw hcooked
    refine ⟨'\\' :: source ++ text, ?_, hraw', hcooked'⟩
    rw [List.cons_append, List.cons_append, List.append_assoc]
    rfl
  | case4 cs hmark hback ih =>
    obtain ⟨b, hread, rfl⟩ := Read.map_eq_done.1 h
    obtain ⟨text, hrest, hraw, hcooked⟩ := ih hread
    obtain ⟨front, hcs, hbreak⟩ := lineBreak_afterLineTerminator (c := '\r') rfl cs
    rw [hrest] at hcs hbreak
    obtain ⟨hchar, hnormal, hparts⟩ := templateChar_lineEnd hbreak hcs
    have hparts' : ¬(front.getLast? = some '\r' ∧ text.head? = some '\n') :=
      fun h => hparts ⟨h.1, head?_of_append h.2⟩
    refine ⟨front ++ text, ?_, ?_, ?_⟩
    · rw [hcs, List.append_assoc]
      rfl
    · rw [normalizeLines_append hparts', hnormal, ← hraw]
      rfl
    · exact IsCooked.append (.single hchar) hcooked
  | case5 c cs hmark hback hreturn hopen =>
    cases h
    obtain ⟨rfl, hbrace⟩ := hopen
    obtain ⟨rest, rfl⟩ := List.head?_eq_some_iff.1 hbrace
    exact ⟨[], rfl, rfl, .nil⟩
  | case6 c cs hmark hback hreturn hopen ih =>
    obtain ⟨b, hread, rfl⟩ := Read.map_eq_done.1 h
    obtain ⟨text, rfl, hraw, hcooked⟩ := ih hread
    refine ⟨c :: text, rfl, ?_, ?_⟩
    · rw [normalizeLines_cons (fun hpair => hreturn hpair.1), if_neg hreturn, ← hraw]
      rfl
    · have helement : TemplateElements (text ++ (closingMark b.closed ++ rest)) [c]
          (unitsOfChar c) := .single (.itself hmark hback hreturn hopen)
      exact IsCooked.append helement hcooked

/-! ## Elements are read -/

/-- Reads the cooked value of a template part. -/
def readCooked : Reader (Option (List UInt16)) := fun cs =>
  (readTemplate cs).map TemplateBody.cooked

/-- A cooked value, if there is one, with units in front. -/
def prependUnits (units : List UInt16) (cooked : Option (List UInt16)) : Option (List UInt16) :=
  cooked.map (units ++ ·)

theorem prependUnits_append (units units' : List UInt16) :
    prependUnits (units ++ units') = prependUnits units ∘ prependUnits units' := by
  funext cooked
  cases cooked with
  | none => rfl
  | some more => exact congrArg some (List.append_assoc units units' more)

theorem Read.map_prependUnits_nil (r : Read (Option (List UInt16))) :
    r.map (prependUnits []) = r := by
  rcases r with ⟨_ | units, rest⟩ | ⟨complaint, rest⟩
  all_goals rfl

theorem readCooked_escape {cs rest : List Char} {units : List UInt16}
    (h : readEscape .template cs = .done units rest) :
    readCooked ('\\' :: cs) = (readCooked rest).map (prependUnits units) := by
  rw [readCooked, readTemplate_escape, h, Read.map_map, readCooked, Read.map_map]
  rfl

/-- Each escape may be decoded on its own here too. -/
theorem readCooked_lone {cs rest : List Char} {units : List UInt16}
    (h : readLoneEscape .template cs = .done units rest) :
    readCooked ('\\' :: cs) = (readCooked rest).map (prependUnits units) := by
  rcases readEscape_of_readLoneEscape h with hread | ⟨middle, second, rest', rfl, hsecond, hread⟩
  · exact readCooked_escape hread
  · rw [readCooked_escape hread, readCooked_escape hsecond, Read.map_map, prependUnits_append]

theorem readCooked_return (cs : List Char) :
    readCooked ('\r' :: cs) =
      (readCooked (afterLineTerminator '\r' cs)).map (prependUnits (unitsOfChar '\n')) := by
  rw [readCooked, readTemplate_return, Read.map_map, readCooked, Read.map_map]
  rfl

theorem TemplateChar.readCooked_eq {after text : List Char} {units : List UInt16}
    (h : TemplateChar after text units) :
    readCooked (text ++ after) = (readCooked after).map (prependUnits units) := by
  cases h with
  | @itself c hmark hback hreturn hopen =>
    rw [List.singleton_append, readCooked, readTemplate.eq_def]
    simp only [if_neg hmark, if_neg hback, if_neg hreturn, if_neg hopen, Read.map_map, readCooked]
    rfl
  | lineEnd => exact readCooked_return ('\n' :: after)
  | lineReturn hnext =>
    have hafter : afterLineTerminator '\r' after = after := by
      cases after with
      | nil => rfl
      | cons d after => exact afterLineTerminator_of_ne '\r' (fun hd => hnext (congrArg some hd)) _
    rw [List.singleton_append, readCooked_return, hafter]
    rfl

/-- Elements in front are read before all else, and put their units in front. -/
theorem TemplateElements.readCooked_eq {after text : List Char} {units : List UInt16}
    (h : TemplateElements after text units) :
    readCooked (text ++ after) = (readCooked after).map (prependUnits units) := by
  induction h with
  | nil => exact (Read.map_prependUnits_nil _).symm
  | plain hplain _ ih =>
    rw [List.append_assoc, hplain.readCooked_eq, ih, Read.map_map, ← prependUnits_append]
  | escape hescape _ ih =>
    rw [List.append_assoc, List.cons_append, readCooked_lone hescape.readLoneEscape_eq, ih,
      Read.map_map, ← prependUnits_append]

theorem HasMalformedEscape.eq_none {after text rest : List Char} {cooked : Option (List UInt16)}
    (h : HasMalformedEscape after text)
    (hread : readCooked (text ++ after) = .done cooked rest) : cooked = none := by
  obtain ⟨front, back, units, rfl, helements, hnone⟩ := h
  rw [List.append_assoc, helements.readCooked_eq] at hread
  obtain ⟨cooked', hread', rfl⟩ := Read.map_eq_done.1 hread
  obtain ⟨b, hbody, rfl⟩ := Read.map_eq_done.1 hread'
  rw [List.cons_append, readTemplate_escape] at hbody
  obtain ⟨b', -, rfl⟩ := Read.map_eq_done.1 hbody
  cases hescape : readEscape .template (back ++ after) with
  | refused complaint left => rfl
  | done units' left =>
    have hlone : ∃ units left, readLoneEscape .template (back ++ after) = .done units left := by
      rcases readEscape_eq_done hescape with hread | ⟨first, middle, second, hread, -⟩
      · exact ⟨_, _, hread⟩
      · exact ⟨_, _, hread⟩
    obtain ⟨units', left, hlone⟩ := hlone
    obtain ⟨escape, hcut, hgrammar⟩ := readLoneEscape_eq_done_iff.1 hlone
    exact absurd hgrammar (hnone escape left units' hcut)

/-! ## Template tokens -/

namespace TemplatePart

/-- What a template part starts with: a backtick, or the brace that closes a substitution. -/
def opening : TemplatePart → List Char
  | whole | head => ['\x60']
  | middle | tail => ['\x7d']

/-- What a template part ends with: a backtick, or the opening of a substitution. -/
def closing : TemplatePart → List Char
  | whole | tail => closingMark true
  | head | middle => closingMark false

end TemplatePart

/-- A template token is what the template reader makes of the text behind an opening. -/
structure TemplatePart.Reads (part : TemplatePart) (body : List Char) (b : TemplateBody)
    (l : Lexeme) : Prop where
  read_eq : readTemplate body = .done b l.rest
  closing_eq : part.closing = closingMark b.closed
  kind_eq : l.kind = .template part (b.cooked.map Text.mk) (String.ofList b.raw)

theorem reads_lexTemplate {closed opened : TemplatePart}
    (hclosed : closed.closing = closingMark true) (hopened : opened.closing = closingMark false)
    {n : Nesting} {body : List Char} {part : TemplatePart} {cooked : Option Text} {raw : String}
    (h : (lexTemplate closed opened n body).kind = .template part cooked raw) :
    (part = closed ∨ part = opened) ∧
      ∃ b, part.Reads body b (lexTemplate closed opened n body) := by
  cases hread : readTemplate body with
  | refused complaint rest =>
    simp only [lexTemplate, hread] at h
    cases h
  | done b rest =>
    have hkind : (lexTemplate closed opened n body).kind = kindOfTemplate closed opened b := by
      simp only [lexTemplate, hread, Read.kind]
    have hrest : (lexTemplate closed opened n body).rest = rest := by
      simp only [lexTemplate, hread, Read.rest_done]
    have hpart : part = if b.closed then closed else opened := by
      rw [hkind] at h
      exact (TokenKind.template.inj h).1.symm
    cases hb : b.closed with
    | true =>
      rw [hb, if_pos rfl] at hpart
      subst hpart
      refine ⟨Or.inl rfl, b, hrest ▸ hread, hb ▸ hclosed, ?_⟩
      rw [hkind, kindOfTemplate, hb]
      rfl
    | false =>
      rw [hb, if_neg Bool.false_ne_true] at hpart
      subst hpart
      refine ⟨Or.inr rfl, b, hrest ▸ hread, hb ▸ hopened, ?_⟩
      rw [hkind, kindOfTemplate, hb]
      rfl

theorem lex_backtick (strict : Bool) (goal : Goal) (n : Nesting) (cs : List Char) :
    lex strict goal n ('\x60' :: cs) = lexTemplate .whole .head n cs := by
  have hstart : isIdentifierStart '\x60' = false := by decide
  simp [lex, hstart]

/-- Elsewhere than at a backtick or a closing brace there is no template. -/
theorem kind_lex_ne_template {c : Char} (hmark : c ≠ '\x60') (hbrace : c ≠ '\x7d') (strict : Bool)
    (goal : Goal) (n : Nesting) (cs : List Char) (part : TemplatePart) (cooked : Option Text)
    (raw : String) : (lex strict goal n (c :: cs)).kind ≠ .template part cooked raw := by
  have hread : ∀ {α : Type} {f : α → TokenKind} {r : Read α},
      (∀ a rest, r = .done a rest → f a ≠ .template part cooked raw) →
        r.kind f ≠ .template part cooked raw :=
    fun h => Read.kind_of (P := (· ≠ .template part cooked raw)) (fun _ => nofun) h
  unfold lex
  dsimp only
  split
  · refine hread fun name _ _ hk => ?_
    have hword := kindOfName_isWord name
    rw [hk] at hword
    exact hword
  split
  · exact hread fun _ _ _ => nofun
  rw [if_neg (by simpa using hmark), if_neg (by simp [hbrace])]
  split
  · exact hread fun _ _ _ => nofun
  split
  · refine hread fun kind rest hnumber hk => ?_
    have hnumeral := readNumber_yields strict c cs kind rest hnumber
    rw [show kind = .template part cooked raw from hk] at hnumeral
    exact hnumeral
  · unfold lexPunctuator
    split <;> exact nofun

theorem reads_lex {strict : Bool} {goal : Goal} {n : Nesting} {cs : List Char}
    {part : TemplatePart} {cooked : Option Text} {raw : String}
    (h : (lex strict goal n cs).kind = .template part cooked raw) :
    ∃ body b, cs = part.opening ++ body ∧ part.Reads body b (lex strict goal n cs) := by
  cases cs with
  | nil => cases h
  | cons c cs =>
    by_cases hmark : c = '\x60'
    · subst hmark
      rw [lex_backtick] at h ⊢
      obtain ⟨rfl | rfl, b, hb⟩ := reads_lexTemplate rfl rfl h
      · exact ⟨cs, b, rfl, hb⟩
      · exact ⟨cs, b, rfl, hb⟩
    by_cases hbrace : c = '\x7d'
    · subst hbrace
      rw [lex_closingBrace] at h ⊢
      by_cases hopen : n.atSubstitution
      · rw [if_pos hopen] at h ⊢
        obtain ⟨rfl | rfl, b, hb⟩ := reads_lexTemplate rfl rfl h
        · exact ⟨cs, b, rfl, hb⟩
        · exact ⟨cs, b, rfl, hb⟩
      · rw [if_neg hopen] at h
        cases h
    · exact absurd h (kind_lex_ne_template hmark hbrace strict goal n cs part cooked raw)

/-- The text of a template part decides its cooked value, and whether there is one. -/
theorem IsCooked.iff_of_readCooked {after text : List Char} {cooked : Option (List UInt16)}
    (h : IsCooked after text cooked) (hread : readCooked (text ++ after) = .done cooked [])
    (hafter : readCooked after = .done (some []) []) :
    (cooked = none ↔ HasMalformedEscape after text) ∧
      ∀ units, cooked = some units ↔ TemplateElements after text units := by
  constructor
  · refine ⟨fun hnone => ?_, fun hmalformed => hmalformed.eq_none hread⟩
    subst hnone
    exact h
  · refine fun units => ⟨fun hsome => ?_, fun helements => ?_⟩
    · subst hsome
      exact h
    · rw [helements.readCooked_eq, hafter] at hread
      have hcooked := (Read.done.inj hread).1
      rw [← hcooked]
      exact congrArg some (List.append_nil units)

theorem readCooked_closingMark (closed : Bool) :
    readCooked (closingMark closed) = .done (some []) [] := by
  cases closed with
  | true => simp [closingMark, readCooked, readTemplate, Read.map, TemplateBody.nothing]
  | false => simp [closingMark, readCooked, readTemplate, Read.map, TemplateBody.nothing]

/-- For every template token there is a text between its opening and its closing such that its raw
value is the text with line ends normalised, it has no cooked value exactly if the text has a
malformed escape, and otherwise its cooked value is that of the elements of the text. -/
theorem template_token_values {s : Scanner} {goal : Goal} {part : TemplatePart}
    {cooked : Option Text} {raw : String}
    (h : (s.next goal).1.kind = .template part cooked raw) :
    ∃ text : List Char,
      (s.next goal).1.raw = String.ofList (part.opening ++ text ++ part.closing) ∧
      raw = String.ofList (normalizeLines text) ∧
      (cooked = none ↔ HasMalformedEscape part.closing text) ∧
      ∀ value : Text, cooked = some value ↔ TemplateElements part.closing text value.units := by
  have hvalid : (s.next goal).1.kind.isInvalid = false := by rw [h]; rfl
  obtain ⟨newline, cs, hgap⟩ := Scanner.exists_gap hvalid
  rw [Scanner.next_of_gap hgap] at h ⊢
  obtain ⟨body, b, rfl, hreads⟩ := reads_lex h
  obtain ⟨front, hbody, hfront⟩ := enclosed_readTemplate.exact hreads.read_eq
  have hread := hfront []
  obtain ⟨text, hcut, hraw, hcooked⟩ := isCooked_of_readTemplate hread
  rw [List.append_nil] at hread hcut hcooked
  rw [List.append_nil, ← hreads.closing_eq] at hcut
  rw [← hreads.closing_eq] at hcooked
  have hkind := hreads.kind_eq.symm.trans h
  obtain ⟨-, rfl, rfl⟩ := TokenKind.template.inj hkind
  have hclosing : readCooked part.closing = .done (some []) [] := by
    rw [hreads.closing_eq]
    exact readCooked_closingMark b.closed
  have hvalue : readCooked (text ++ part.closing) = .done b.cooked [] := by
    rw [readCooked, ← hcut, hread]
    rfl
  obtain ⟨hnone, hsome⟩ := hcooked.iff_of_readCooked hvalue hclosing
  refine ⟨text, ?_, congrArg String.ofList hraw, ?_, fun value => ?_⟩
  · have hsource : part.opening ++ body = (part.opening ++ text ++ part.closing) ++
        (lex s.strict goal s.nesting (part.opening ++ body)).rest := by
      rw [List.append_assoc part.opening, ← hcut, List.append_assoc, ← hbody]
    have hraw := textBefore_append_left (part.opening ++ text ++ part.closing)
      (lex s.strict goal s.nesting (part.opening ++ body)).rest
    rw [← hsource] at hraw
    exact congrArg String.ofList hraw
  · rw [← hnone]
    exact Option.map_eq_none_iff
  · rw [← hsome, Option.map_eq_some_iff]
    constructor
    · rintro ⟨units, hunits, rfl⟩
      exact hunits
    · exact fun hunits => ⟨value.units, hunits, rfl⟩

/-- A carriage return with a line feed, and an escape that no template may have. -/
theorem template_token_values_octal :
    let s := Scanner.ofString "\x60a\r\n\\08$\x7bb\x7d\x60" false
    (s.next .regExp).1.kind = .template .head none "a\n\\08" ∧
      ∃ text : List Char,
        (s.next .regExp).1.raw = String.ofList ('\x60' :: text ++ ['$', '\x7b']) ∧
        "a\n\\08" = String.ofList (normalizeLines text) ∧
        HasMalformedEscape ['$', '\x7b'] text := by
  intro s
  have hkind : (s.next .regExp).1.kind = .template .head none "a\n\\08" := by decide +kernel
  obtain ⟨text, hraw, hnormal, hmalformed, -⟩ := template_token_values hkind
  exact ⟨hkind, text, hraw, hnormal, hmalformed.1 rfl⟩

end Ecma
