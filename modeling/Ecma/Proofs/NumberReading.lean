import Ecma.Proofs.NumberGrammar

/-!
# Reading decimal and radix literals

Each number reader is compared with its part of the grammar in one way. Either the text of the part
goes on with what stands behind it (`GoesOn`), or the reader gets exactly through that text, or it
refuses and something is glued to the number (`Settles`).
-/

namespace Ecma

open Reader

/-- Some of what stands behind a text goes on with it. -/
def GoesOn (P : List Char → Prop) (text after : List Char) : Prop :=
  ∃ more, more ≠ [] ∧ more <+: after ∧ P (text ++ more)

theorem GoesOn.imp {P Q : List Char → Prop} {text text' after : List Char}
    (h : GoesOn P text after) (himp : ∀ more, P (text ++ more) → Q (text' ++ more)) :
    GoesOn Q text' after := by
  obtain ⟨more, hne, hmore, hp⟩ := h
  exact ⟨more, hne, hmore, himp more hp⟩

/-- What a reader does inside a number that ends before `after`: it reads up to `rest`, or it
refuses, and then something is glued to the number. -/
def Settles {α : Type} (after : List Char) (r : Read α) (a : α) (rest : List Char) : Prop :=
  r = .done a rest ∨
    (∃ complaint left, r = .refused complaint left) ∧ after.head?.any isGluedToNumber = true

namespace Settles

variable {α β : Type} {after rest : List Char} {a : α}

/-- Where nothing more is read, it is the text in front that is read. -/
theorem prepend {r : Read (List Char)} (h : Settles after r [] rest) (text : List Char) :
    Settles after (r.map (text ++ ·)) text rest := by
  obtain rfl | ⟨⟨complaint, left, rfl⟩, hglued⟩ := h
  · exact Or.inl (congrArg (Read.done · rest) (List.append_nil text))
  · exact Or.inr ⟨⟨complaint, left, rfl⟩, hglued⟩

theorem bind {m : Reader α} {f : α → Reader β} {cs rest' : List Char} {b : β}
    (h : Settles after (m cs) a rest) (hf : Settles after (f a rest) b rest') :
    Settles after ((m >>= f) cs) b rest' := by
  show Settles after (Reader.bind m f cs) b rest'
  unfold Reader.bind
  obtain hdone | ⟨⟨complaint, left, hrefused⟩, hglued⟩ := h
  · rw [hdone]
    exact hf
  · rw [hrefused]
    exact Or.inr ⟨⟨complaint, left, rfl⟩, hglued⟩

theorem refused {complaint : Complaint} {left : List Char}
    (hglued : after.head?.any isGluedToNumber = true) :
    Settles after (.refused complaint left : Read α) a rest :=
  Or.inr ⟨⟨complaint, left, rfl⟩, hglued⟩

end Settles

theorem exists_cons_of_head? {p : Char → Bool} {cs : List Char} (h : cs.head?.any p = true) :
    ∃ c cs', cs = c :: cs' ∧ p c = true := by
  cases cs with
  | nil => cases h
  | cons c cs => exact ⟨c, cs, rfl, h⟩

/-- The mark of a big integer is glued to what stands before it. -/
theorem glued_of_bigMark {cs : List Char} (h : cs.head?.any (· == 'n') = true) :
    cs.head?.any isGluedToNumber = true := by
  obtain ⟨c, cs, rfl, hc⟩ := exists_cons_of_head? h
  obtain rfl : c = 'n' := by simpa using hc
  exact show isGluedToNumber 'n' = true by decide

theorem Reader.bind_of_done {α β : Type} {m : Reader α} {f : α → Reader β} {cs rest : List Char}
    {a : α} (h : m cs = .done a rest) : (m >>= f) cs = f a rest := by
  show Reader.bind m f cs = f a rest
  rw [Reader.bind, h]

theorem Reader.skipIf_of_ne {c : Char} {cs : List Char} (h : cs.head? ≠ some c) :
    skipIf c cs = .done false cs := by
  cases cs with
  | nil => rfl
  | cons d cs =>
    have hd : (d == c) = false := by
      rw [beq_eq_false_iff_ne]
      exact fun hd => h (congrArg some hd)
    simp only [skipIf, hd, Bool.false_eq_true, if_false]

theorem Reader.skipIf_cons (c : Char) (cs : List Char) : skipIf c (c :: cs) = .done true cs := by
  simp only [skipIf, beq_self_eq_true, if_true]

/-! ## Digits -/

theorem isGluedToNumber_of_digit {c : Char} (h : isDecimalDigit c = true) :
    isGluedToNumber c = true := by
  rw [isGluedToNumber, h]
  rfl

/-- Behind a digit, more digits follow, with or without a separator, or there is no more to read. -/
theorem readDigits_goesOn (radix : Nat) (after : List Char) :
    (∃ more, more ≠ [] ∧ more <+: after ∧
        ∀ text ds, Digits radix text ds → ∃ ds', Digits radix (text ++ more) ds') ∨
      Settles after (readDigits radix true after) [] after := by
  cases after with
  | nil => exact Or.inr (Or.inl rfl)
  | cons c cs =>
    by_cases hc : isDigitOf radix c = true
    · obtain ⟨d, hd⟩ := exists_digitValue? hc
      exact Or.inl ⟨[c], List.cons_ne_nil _ _, ⟨cs, rfl⟩,
        fun text ds h => ⟨_, h.append (.single hd)⟩⟩
    by_cases hsep : c = '_'
    · subst hsep
      by_cases hnext : cs.head?.any (isDigitOf radix) = true
      · obtain ⟨e, cs, rfl, he⟩ := exists_cons_of_head? hnext
        obtain ⟨d, hd⟩ := exists_digitValue? he
        exact Or.inl ⟨['_', e], List.cons_ne_nil _ _, ⟨cs, rfl⟩,
          fun text ds h => ⟨_, h.append_separated (.single hd)⟩⟩
      · have hread : readDigits radix true ('_' :: cs) = .refused .separator cs := by
          simp [readDigits, isDigitOf_separator, hnext]
        rw [hread]
        exact Or.inr (Settles.refused (show isGluedToNumber '_' = true by decide))
    · exact Or.inr (Or.inl (readDigits_of_head? (by simp [hc, hsep]) true))

theorem Digits.settles {radix : Nat} {text : List Char} {ds : List Nat} (h : Digits radix text ds)
    (afterDigit : Bool) (after : List Char) :
    GoesOn (fun t => ∃ ds, Digits radix t ds) text after ∨
      Settles after (readDigits radix afterDigit (text ++ after)) text after := by
  rcases readDigits_goesOn radix after with ⟨more, hne, hmore, hdigits⟩ | hsettles
  · exact Or.inl ⟨more, hne, hmore, hdigits text ds h⟩
  · rw [h.readDigits_append]
    exact Or.inr (hsettles.prepend text)

/-! ## Exponents -/

theorem readOptionalExponent_cons {mark : Char} (h : isExponentMark mark = true)
    (cs : List Char) : readOptionalExponent (mark :: cs) = readExponent (mark :: cs) := by
  show (if ((mark :: cs).head?.any isExponentMark) = true then readExponent
    else Pure.pure [] : Reader (List Char)) (mark :: cs) = _
  exact congrFun (if_pos h) _

theorem readOptionalExponent_of_head? {cs : List Char} (h : cs.head?.any isExponentMark = false) :
    readOptionalExponent cs = .done [] cs := by
  show (if (cs.head?.any isExponentMark) = true then readExponent
    else Pure.pure [] : Reader (List Char)) cs = _
  rw [h, if_neg Bool.false_ne_true]
  rfl

/-- What is read behind the sign of an exponent. -/
theorem readExponent_sign {sign cs rest : List Char} (h : readSign cs = .done sign rest)
    (mark : Char) :
    readExponent (mark :: cs) =
      if rest.head?.any isDecimalDigit then
        (readDigits 10 false rest).map fun ds => mark :: (sign ++ ds)
      else .refused .exponentDigits rest := by
  show (readSign >>= _) cs = _
  rw [bind_of_done h]
  show (if (rest.head?.any isDecimalDigit) = true then _ else _ : Reader (List Char)) rest = _
  split
  · show Reader.bind (readDigits 10 false) _ rest = _
    unfold Reader.bind
    cases readDigits 10 false rest <;> rfl
  · rfl

theorem readSign_cases (cs : List Char) :
    ∃ sign unit rest, (sign, unit) ∈ exponentSigns ∧ cs = sign ++ rest ∧
      readSign cs = .done sign rest := by
  unfold readSign
  split
  · exact ⟨['+'], 1, _, by decide, rfl, rfl⟩
  · exact ⟨['-'], -1, _, by decide, rfl, rfl⟩
  · exact ⟨[], 1, cs, by decide, rfl, rfl⟩

/-- A sign before a digit is read as it is. -/
theorem readSign_append {sign rest : List Char} {unit : Int} (h : (sign, unit) ∈ exponentSigns)
    (hrest : rest.head?.any isDecimalDigit = true) :
    readSign (sign ++ rest) = .done sign rest := by
  simp only [exponentSigns, List.mem_cons, Prod.mk.injEq, List.not_mem_nil, or_false] at h
  obtain ⟨rfl, -⟩ | ⟨rfl, -⟩ | ⟨rfl, -⟩ := h
  · have hplus : ∀ cs, rest ≠ '+' :: cs := by
      rintro cs rfl
      exact absurd (show isDecimalDigit '+' = true from hrest) (by decide)
    have hminus : ∀ cs, rest ≠ '-' :: cs := by
      rintro cs rfl
      exact absurd (show isDecimalDigit '-' = true from hrest) (by decide)
    exact readSign.eq_3 rest hplus hminus
  · rfl
  · rfl

namespace Exponent

variable {text : List Char} {x : Int}

/-- No exponent, or one with its mark in front. -/
theorem eq_nil_or (h : Exponent text x) :
    text = [] ∨ ∃ mark rest, text = mark :: rest ∧ isExponentMark mark = true := by
  cases h with
  | empty => exact Or.inl rfl
  | marked hmark _ _ => exact Or.inr ⟨_, _, rfl, hmark⟩

/-- A character that is no exponent mark comes first only where there is no exponent. -/
theorem eq_nil_of_head? {p : Char → Bool} (hlower : p 'e' = false) (hupper : p 'E' = false)
    (h : Exponent text x) {after : List Char} (hhead : (text ++ after).head?.any p = true) :
    text = [] := by
  refine h.eq_nil_or.resolve_right ?_
  rintro ⟨mark, rest, rfl, hmark⟩
  replace hhead : p mark = true := hhead
  rcases isExponentMark_iff.1 hmark with rfl | rfl
  · exact absurd (hlower.symm.trans hhead) (by decide)
  · exact absurd (hupper.symm.trans hhead) (by decide)

/-- An exponent in front is read before all else. -/
theorem readOptionalExponent_append (h : Exponent text x) (hne : text ≠ []) (after : List Char) :
    readOptionalExponent (text ++ after) = (readDigits 10 true after).map (text ++ ·) := by
  cases h with
  | empty => exact absurd rfl hne
  | @marked mark sign text unit ds hmark hsign hds =>
    have hdigit : (text ++ after).head?.any isDecimalDigit = true := hds.head?_append after
    rw [List.cons_append, List.append_assoc, readOptionalExponent_cons hmark,
      readExponent_sign (readSign_append hsign hdigit), if_pos hdigit, hds.readDigits_append,
      Read.map_map]
    congr 1
    funext ds
    simp

/-- What goes on with digits goes on with the digits of an exponent. -/
theorem append_digits (h : Exponent text x) (hne : text ≠ []) {more : List Char}
    (hmore : ∀ t ds, Digits 10 t ds → ∃ ds', Digits 10 (t ++ more) ds') :
    ∃ y, Exponent (text ++ more) y := by
  cases h with
  | empty => exact absurd rfl hne
  | marked hmark hsign hds =>
    obtain ⟨ds', hds'⟩ := hmore _ _ hds
    rw [List.cons_append, List.append_assoc]
    exact ⟨_, .marked hmark hsign hds'⟩

end Exponent

/-- Where there is no exponent, a first one with one digit follows, or there is none to read. -/
theorem readOptionalExponent_goesOn (after : List Char) :
    GoesOn (fun t => '_' ∉ t ∧ ∃ x, Exponent t x) [] after ∨
      Settles after (readOptionalExponent after) [] after := by
  by_cases hhead : after.head?.any isExponentMark = true
  · obtain ⟨mark, cs, rfl, hexponent⟩ := exists_cons_of_head? hhead
    have hmark := isExponentMark_iff.1 hexponent
    obtain ⟨sign, unit, rest, hsign, rfl, hread⟩ := readSign_cases cs
    by_cases hdigit : rest.head?.any isDecimalDigit = true
    · obtain ⟨c, rest, rfl, hc⟩ := exists_cons_of_head? hdigit
      obtain ⟨d, hd⟩ := exists_decimalValue hc
      refine Or.inl ⟨mark :: (sign ++ [c]), List.cons_ne_nil _ _, ⟨rest, by simp⟩, ?_,
        _, .marked hexponent hsign (.single hd)⟩
      have hsignPlain := separator_notMem_sign hsign
      have hplain := ne_separator_of_digitValue? hd
      rcases hmark with rfl | rfl
      · simp [hsignPlain, hplain.symm]
      · simp [hsignPlain, hplain.symm]
    · rw [readOptionalExponent_cons hexponent, readExponent_sign hread, if_neg hdigit]
      refine Or.inr (Settles.refused ?_)
      rcases hmark with rfl | rfl
      · exact show isGluedToNumber 'e' = true by decide
      · exact show isGluedToNumber 'E' = true by decide
  · exact Or.inr (Or.inl (readOptionalExponent_of_head? (Bool.not_eq_true _ ▸ hhead)))

theorem Exponent.settles {text : List Char} {x : Int} (h : Exponent text x) (after : List Char) :
    GoesOn (fun t => ∃ x, Exponent t x) text after ∨
      Settles after (readOptionalExponent (text ++ after)) text after := by
  by_cases hne : text = []
  · subst hne
    rcases readOptionalExponent_goesOn after with hon | hsettles
    · exact Or.inl (hon.imp fun more hmore => hmore.2)
    · exact Or.inr hsettles
  · rw [h.readOptionalExponent_append hne]
    rcases readDigits_goesOn 10 after with ⟨more, hmore, hbegins, hdigits⟩ | hsettles
    · exact Or.inl ⟨more, hmore, hbegins, h.append_digits hne hdigits⟩
    · exact Or.inr (hsettles.prepend text)

/-! ## Fractions -/

theorem readFraction_of_digit {cs : List Char} (h : cs.head?.any isDecimalDigit = true) :
    readFraction cs = readDigits 10 false cs := by
  show (if (cs.head?.any isDecimalDigit) = true then readDigits 10 false
    else Pure.pure [] : Reader (List Char)) cs = _
  rw [if_pos h]

theorem readFraction_of_head? {cs : List Char} (h : cs.head?.any isDecimalDigit = false) :
    readFraction cs = .done [] cs := by
  show (if (cs.head?.any isDecimalDigit) = true then readDigits 10 false
    else Pure.pure [] : Reader (List Char)) cs = _
  rw [h, if_neg Bool.false_ne_true]
  rfl

theorem FractionDigits.append_digit {text : List Char} {fs : List Nat} (h : FractionDigits text fs)
    {c : Char} {d : Nat} (hd : digitValue? 10 c = some d) :
    Digits 10 (text ++ [c]) (fs ++ [d]) := by
  cases h with
  | empty => exact .single hd
  | digits hds => exact hds.append (.single hd)

theorem FractionDigits.areDigits {text : List Char} {fs : List Nat} (h : FractionDigits text fs)
    (hplain : '_' ∉ text) : AreDigits 10 text := by
  cases h with
  | empty => exact areDigits_nil 10
  | digits hds => exact hds.areDigits hplain

theorem FractionDigits.settles {text exponent : List Char} {fs : List Nat} {x : Int}
    (h : FractionDigits text fs) (hexponent : Exponent exponent x) (after : List Char) :
    (exponent = [] ∧ GoesOn (fun t => ∃ fs, Digits 10 t fs) text after) ∨
      Settles after (readFraction (text ++ (exponent ++ after))) text (exponent ++ after) := by
  cases h with
  | empty =>
    by_cases hdigit : (exponent ++ after).head?.any isDecimalDigit = true
    · obtain rfl := hexponent.eq_nil_of_head? rfl rfl hdigit
      obtain ⟨c, cs, rfl, hc⟩ := exists_cons_of_head? hdigit
      obtain ⟨d, hd⟩ := exists_decimalValue hc
      exact Or.inl ⟨rfl, [c], List.cons_ne_nil _ _, ⟨cs, rfl⟩, _, .single hd⟩
    · exact Or.inr (Or.inl (readFraction_of_head? (Bool.not_eq_true _ ▸ hdigit)))
  | digits hds =>
    rw [readFraction_of_digit (hds.head?_append _)]
    by_cases hnext : (exponent ++ after).head?.any (fun c => isDigitOf 10 c || c == '_') = true
    · obtain rfl := hexponent.eq_nil_of_head? rfl rfl hnext
      exact (hds.settles false after).imp_left fun hon => ⟨rfl, hon⟩
    · exact Or.inr (Or.inl (hds.readDigits_eq false (Bool.not_eq_true _ ▸ hnext)))

/-! ## Decimal literals -/

theorem decimalToken_of_some {literal : List Char} {d : Decimal}
    (h : Decimal.ofChars? literal = some d) (cs : List Char) :
    decimalToken literal cs = .done (.number d.toDouble) cs := by
  rw [decimalToken, h]
  rfl

theorem decimalToken_of_none {literal : List Char} (h : Decimal.ofChars? literal = none)
    (cs : List Char) : decimalToken literal cs = .refused .number cs := by
  rw [decimalToken, h]
  rfl

/-- The end of a decimal literal, unless it is that of a big integer. -/
theorem finishDecimal_settles {isWhole : Bool} {mantissa exponent after : List Char} {x : Int}
    {d : Decimal} (hexponent : Exponent exponent x)
    (hvalue : Decimal.ofChars? (withoutSeparators (mantissa ++ exponent)) = some d)
    (hbig : ¬(isWhole = true ∧ exponent = [] ∧ after.head?.any (· == 'n') = true)) :
    GoesOn (fun t => ∃ x, Exponent t x) exponent after ∨
      Settles after (finishDecimal isWhole mantissa (exponent ++ after)) (.number d.toDouble)
        after := by
  refine (hexponent.settles after).imp_right fun hsettles => ?_
  refine Settles.bind hsettles ?_
  show Settles after ((if (after.head?.any (· == 'n')) = true then
    if (isWhole && exponent.isEmpty) = true then _ else refuse .bigInt
    else decimalToken (withoutSeparators (mantissa ++ exponent)) : Reader TokenKind) after) _ after
  by_cases hn : after.head?.any (· == 'n') = true
  · have hwhole : ¬(isWhole && exponent.isEmpty) = true := by
      rw [Bool.and_eq_true, List.isEmpty_iff]
      exact fun h => hbig ⟨h.1, h.2, hn⟩
    rw [if_pos hn, if_neg hwhole]
    exact Settles.refused (glued_of_bigMark hn)
  · rw [if_neg hn, decimalToken_of_some hvalue]
    exact Or.inl rfl

/-- What may stand behind the digits of a decimal integer. -/
inductive DecimalTail : List Char → Prop where
  | decimal {fraction exponent : List Char} {fs : List Nat} {x : Int}
      (hfraction : Fraction fraction fs) (hexponent : Exponent exponent x) :
      DecimalTail (fraction ++ exponent)
  | big : DecimalTail ['n']

theorem DecimalTail.ofFraction {fraction : List Char} {fs : List Nat} (h : Fraction fraction fs) :
    DecimalTail fraction := by
  have htail := DecimalTail.decimal h .empty
  rwa [List.append_nil] at htail

theorem DecimalTail.ofExponent {exponent : List Char} {x : Int} (h : Exponent exponent x) :
    DecimalTail exponent := .decimal .empty h

theorem DecimalTail.numeral {strict : Bool} {whole text : List Char} {ds : List Nat}
    (h : DecimalTail text) (hwhole : DecimalInteger whole ds) :
    ∃ kind, Numeral strict (whole ++ text) kind := by
  cases h with
  | decimal hfraction hexponent => exact ⟨_, .decimal hwhole hfraction hexponent⟩
  | big => exact ⟨_, .bigDecimal hwhole⟩

/-- The rest of a decimal literal behind its whole part. -/
def readDecimalTail (whole : List Char) : Reader TokenKind := do
  if ← Reader.skipIf '.' then
    let fraction ← readFraction
    finishDecimal false (whole ++ '.' :: fraction)
  else
    finishDecimal true whole

theorem readDecimalLiteral_of_ne {first : Char} (h : first ≠ '.') :
    readDecimalLiteral first =
      (readDigits 10 true >>= fun whole => readDecimalTail (first :: whole)) := by
  rw [readDecimalLiteral, if_neg (by simpa using h)]
  rfl

theorem readDecimalTail_settles {whole fraction exponent : List Char} {ds fs : List Nat} {x : Int}
    (hwhole : HaveValues 10 (withoutSeparators whole) ds) (hne : ds ≠ [])
    (hfraction : Fraction fraction fs) (hexponent : Exponent exponent x) (after : List Char) :
    GoesOn DecimalTail (fraction ++ exponent) after ∨
      Settles after (readDecimalTail whole (fraction ++ (exponent ++ after)))
        (.number (decimalOf ds fs x).toDouble) after := by
  have hvalue := ofChars?_literal hwhole hfraction hexponent
    (List.append_ne_nil_of_left_ne_nil hne fs)
  cases hfraction with
  | empty =>
    rw [List.nil_append] at hvalue ⊢
    rw [List.nil_append]
    by_cases hpoint : (exponent ++ after).head? = some '.'
    · -- the point goes on with the number, as it stands behind no exponent
      obtain rfl : exponent = [] :=
        hexponent.eq_nil_of_head? (p := (· == '.')) rfl rfl (by rw [hpoint]; rfl)
      obtain ⟨cs, rfl⟩ := List.head?_eq_some_iff.1 hpoint
      exact Or.inl ⟨['.'], List.cons_ne_nil _ _, ⟨cs, rfl⟩, .ofFraction (.point .empty)⟩
    by_cases hbig : exponent = [] ∧ after.head?.any (· == 'n') = true
    · obtain ⟨rfl, hn⟩ := hbig
      obtain ⟨c, cs, rfl, hc⟩ := exists_cons_of_head? hn
      obtain rfl : c = 'n' := by simpa using hc
      exact Or.inl ⟨['n'], List.cons_ne_nil _ _, ⟨cs, rfl⟩, .big⟩
    · have hread : readDecimalTail whole (exponent ++ after) =
          finishDecimal true whole (exponent ++ after) := bind_of_done (skipIf_of_ne hpoint)
      rw [hread]
      refine (finishDecimal_settles hexponent hvalue fun h => hbig h.2).imp_left fun hon => ?_
      exact hon.imp fun more ⟨y, hy⟩ => .ofExponent hy
  | @point text fs hds =>
    have hread : readDecimalTail whole ('.' :: text ++ (exponent ++ after)) =
        (readFraction >>= fun fraction => finishDecimal false (whole ++ '.' :: fraction))
          (text ++ (exponent ++ after)) := bind_of_done (skipIf_cons '.' _)
    rw [hread]
    rcases hds.settles hexponent after with ⟨rfl, hon⟩ | hsettles
    · refine Or.inl (hon.imp fun more ⟨gs, hgs⟩ => ?_)
      rw [List.append_nil]
      exact .ofFraction (.point (.digits hgs))
    rw [← List.append_assoc] at hvalue
    have hbig : ¬(false = true ∧ exponent = [] ∧ after.head?.any (· == 'n') = true) :=
      fun h => nomatch h.1
    rcases finishDecimal_settles hexponent hvalue hbig with hon | hfinish
    · refine Or.inl (hon.imp fun more ⟨y, hy⟩ => ?_)
      rw [List.append_assoc]
      exact .decimal (.point hds) hy
    · exact Or.inr (hsettles.bind hfinish)

theorem Read.map_nil_append (r : Read (List Char)) : r.map ([] ++ ·) = r := by
  cases r <;> rfl

/-- The digits behind a first one are read before all else. -/
theorem Digits.readDigits_tail {radix : Nat} {c : Char} {text : List Char} {ds : List Nat}
    (h : Digits radix (c :: text) ds) (after : List Char) :
    readDigits radix true (text ++ after) = (readDigits radix true after).map (text ++ ·) := by
  cases h with
  | single _ => exact (Read.map_nil_append _).symm
  | cons _ hds => exact hds.readDigits_append true after
  | separated _ hds =>
    rw [List.cons_append, readDigits_separator (isDigitOf_separator radix) (hds.head?_append after),
      hds.readDigits_append, Read.map_map]
    rfl

namespace DecimalInteger

variable {whole : List Char} {ds : List Nat}

theorem first_ne {c : Char} {text : List Char} (h : DecimalInteger (c :: text) ds) : c ≠ '.' := by
  rintro rfl
  have hdigit : isDecimalDigit '.' = true := by
    cases h with
    | nonzero hc hds => exact hds.head?_append []
  exact absurd hdigit (by decide)

theorem haveValues (h : DecimalInteger whole ds) : HaveValues 10 (withoutSeparators whole) ds := by
  cases h with
  | zero => exact .cons rfl .nil
  | nonzero hc hds => exact hds.haveValues

theorem ne_nil (h : DecimalInteger whole ds) : ds ≠ [] := by
  cases h with
  | zero => exact List.cons_ne_nil _ _
  | nonzero hc hds => exact hds.ne_nil

theorem readDigits_tail {c : Char} {text : List Char} (h : DecimalInteger (c :: text) ds)
    (after : List Char) :
    readDigits 10 true (text ++ after) = (readDigits 10 true after).map (text ++ ·) := by
  cases h with
  | zero => exact (Read.map_nil_append _).symm
  | nonzero hc hds => exact hds.readDigits_tail after

/-- The digits of a decimal integer, where none can follow. -/
theorem readDigits_eq {c : Char} {text after : List Char} (h : DecimalInteger (c :: text) ds)
    (hafter : after.head?.any (fun c => isDigitOf 10 c || c == '_') = false) :
    readDigits 10 true (text ++ after) = .done text after := by
  rw [h.readDigits_tail, readDigits_of_head? hafter]
  exact congrArg (Read.done · after) (List.append_nil text)

end DecimalInteger

/-- A text of the grammar. -/
def IsNumeral (strict : Bool) (text : List Char) : Prop := ∃ kind, Numeral strict text kind

theorem IsNumeral.ofInteger {strict : Bool} {whole : List Char} {ds : List Nat}
    (h : DecimalInteger whole ds) : IsNumeral strict whole := by
  obtain ⟨kind, hkind⟩ := (DecimalTail.ofFraction .empty).numeral h
  rw [List.append_nil] at hkind
  exact ⟨kind, hkind⟩

section

variable {strict : Bool} {fraction exponent after : List Char} {fs : List Nat} {x : Int}

/-- Behind a decimal integer, a character that is neither a point nor an exponent mark comes first
only where the integer is all there is. -/
theorem tail_eq_nil_of_head? {p : Char → Bool} (hpoint : p '.' = false) (hlower : p 'e' = false)
    (hupper : p 'E' = false) (hfraction : Fraction fraction fs) (hexponent : Exponent exponent x)
    (h : (fraction ++ (exponent ++ after)).head?.any p = true) : fraction = [] ∧ exponent = [] := by
  cases hfraction with
  | empty => exact ⟨rfl, hexponent.eq_nil_of_head? hlower hupper h⟩
  | point hds => exact absurd (hpoint.symm.trans h) (by decide)

theorem decimal_settles_of_digits {first : Char} {text : List Char} {ds : List Nat}
    (hwhole : DecimalInteger (first :: text) ds) (hfraction : Fraction fraction fs)
    (hexponent : Exponent exponent x)
    (hdigits : Settles after (readDigits 10 true (text ++ (fraction ++ (exponent ++ after)))) text
      (fraction ++ (exponent ++ after))) :
    GoesOn (IsNumeral strict) (first :: text ++ (fraction ++ exponent)) after ∨
      Settles after (readDecimalLiteral first (text ++ (fraction ++ (exponent ++ after))))
        (.number (decimalOf ds fs x).toDouble) after := by
  rw [readDecimalLiteral_of_ne hwhole.first_ne]
  rcases readDecimalTail_settles hwhole.haveValues hwhole.ne_nil hfraction hexponent after
    with hon | hsettles
  · refine Or.inl (hon.imp fun more hmore => ?_)
    rw [List.append_assoc]
    exact hmore.numeral hwhole
  · exact Or.inr (hdigits.bind hsettles)

/-- A decimal literal that does not start with a zero. -/
theorem decimal_settles {first : Char} {text : List Char} {ds : List Nat} (hfirst : first ≠ '0')
    (hds : Digits 10 (first :: text) ds) (hfraction : Fraction fraction fs)
    (hexponent : Exponent exponent x) :
    GoesOn (IsNumeral strict) (first :: text ++ (fraction ++ exponent)) after ∨
      Settles after (readDecimalLiteral first (text ++ (fraction ++ (exponent ++ after))))
        (.number (decimalOf ds fs x).toDouble) after := by
  have hwhole := DecimalInteger.nonzero hfirst hds
  by_cases hnext : (fraction ++ (exponent ++ after)).head?.any
      (fun c => isDigitOf 10 c || c == '_') = true
  · obtain ⟨rfl, rfl⟩ := tail_eq_nil_of_head? rfl rfl rfl hfraction hexponent hnext
    rcases readDigits_goesOn 10 after with ⟨more, hne, hmore, hdigits⟩ | hsettles
    · obtain ⟨ds', hds'⟩ := hdigits _ _ hds
      refine Or.inl ⟨more, hne, hmore, ?_⟩
      rw [List.append_nil, List.append_nil]
      exact .ofInteger (.nonzero hfirst hds')
    · refine decimal_settles_of_digits hwhole hfraction hexponent ?_
      rw [List.nil_append, List.nil_append, hwhole.readDigits_tail]
      exact hsettles.prepend text
  · exact decimal_settles_of_digits hwhole hfraction hexponent
      (Or.inl (hwhole.readDigits_eq (Bool.not_eq_true _ ▸ hnext)))

/-- What may stand behind a leading zero so that it is not read as a decimal literal. -/
def leadsOn (c : Char) : Bool := (RadixMark.ofChar? c).isSome || isDecimalDigit c || c == '_'

theorem head?_of_leadsOn {cs : List Char} (h : cs.head?.any leadsOn = false) :
    cs.head?.any (fun c => isDigitOf 10 c || c == '_') = false := by
  cases cs with
  | nil => rfl
  | cons c cs =>
    rw [List.head?_cons, Option.any_some, leadsOn, Bool.or_assoc, Bool.or_eq_false_iff] at h
    exact h.2

theorem radixLetter_mem {c : Char} {mark : RadixMark} (h : RadixMark.ofChar? c = some mark) :
    c ∈ ['x', 'X', 'o', 'O', 'b', 'B'] := by
  simp only [RadixMark.ofChar?, Bool.or_eq_true, beq_iff_eq] at h
  split at h
  · rename_i hc
    rcases hc with rfl | rfl <;> decide
  split at h
  · rename_i hc
    rcases hc with rfl | rfl <;> decide
  split at h
  · rename_i hc
    rcases hc with rfl | rfl <;> decide
  · cases h

theorem isGluedToNumber_radixLetter {c : Char} {mark : RadixMark}
    (h : RadixMark.ofChar? c = some mark) : isGluedToNumber c = true := by
  have hall : ['x', 'X', 'o', 'O', 'b', 'B'].all isGluedToNumber = true := by decide
  exact List.all_eq_true.1 hall c (radixLetter_mem h)

theorem ofChar?_of_digit {c : Char} (h : (isDecimalDigit c || c == '_') = true) :
    RadixMark.ofChar? c = none := by
  cases hmark : RadixMark.ofChar? c with
  | none => rfl
  | some mark =>
    have hany : ['x', 'X', 'o', 'O', 'b', 'B'].any
        (fun c => isDecimalDigit c || c == '_') = false := by decide
    exact absurd h (List.any_eq_false.1 hany c (radixLetter_mem hmark))

theorem readNumberBody_of_ne {first : Char} (h : first ≠ '0') :
    readNumberBody strict first = readDecimalLiteral first := by
  funext cs
  simp only [readNumberBody, if_neg h]

theorem readNumberBody_zero {cs : List Char} (h : cs.head?.any leadsOn = false) :
    readNumberBody strict '0' cs = readDecimalLiteral '0' cs := by
  cases cs with
  | nil => rfl
  | cons c cs =>
    simp only [leadsOn, List.head?_cons, Option.any_some, Bool.or_eq_false_iff,
      Option.isSome_eq_false_iff, Option.isNone_iff_eq_none] at h
    simp only [readNumberBody, h, Bool.or_self, Bool.false_eq_true, if_true, if_false]

theorem readNumberBody_radix {letter : Char} {mark : RadixMark}
    (h : RadixMark.ofChar? letter = some mark) (cs : List Char) :
    readNumberBody strict '0' (letter :: cs) = readRadixLiteral mark (letter :: cs) := by
  simp only [readNumberBody, h, if_true]

theorem readNumberBody_legacy {c : Char} (h : (isDecimalDigit c || c == '_') = true)
    (cs : List Char) :
    readNumberBody strict '0' (c :: cs) = readLegacyNumber strict (c :: cs) := by
  simp only [readNumberBody, ofChar?_of_digit h, h, if_true]

/-- A lone zero, or a decimal literal that starts with one. -/
theorem zero_settles (hfraction : Fraction fraction fs) (hexponent : Exponent exponent x)
    (hplain : (fraction ++ (exponent ++ after)).head?.any leadsOn = false) :
    GoesOn (IsNumeral strict) ('0' :: (fraction ++ exponent)) after ∨
      Settles after (readNumberBody strict '0' (fraction ++ (exponent ++ after)))
        (.number (decimalOf [0] fs x).toDouble) after := by
  rw [readNumberBody_zero hplain]
  refine decimal_settles_of_digits DecimalInteger.zero hfraction hexponent (Or.inl ?_)
  exact DecimalInteger.zero.readDigits_eq (head?_of_leadsOn hplain)

end

/-- A literal without whole digits, from its point on. -/
theorem point_settles {strict : Bool} {text exponent : List Char} {fs : List Nat} {x : Int}
    (hds : Digits 10 text fs) (hexponent : Exponent exponent x) (after : List Char) :
    GoesOn (IsNumeral strict) ('.' :: (text ++ exponent)) after ∨
      Settles after (readDecimalLiteral '.' (text ++ (exponent ++ after)))
        (.number (decimalOf [] fs x).toDouble) after := by
  have hread : readDecimalLiteral '.' =
      (readFraction >>= fun fraction => finishDecimal false ('.' :: fraction)) := rfl
  have hnothing : HaveValues 10 (withoutSeparators []) [] := .nil
  have hvalue : Decimal.ofChars? (withoutSeparators ('.' :: text ++ exponent)) =
      some (decimalOf [] fs x) :=
    ofChars?_literal hnothing (.point (.digits hds)) hexponent hds.ne_nil
  rw [hread]
  rcases (FractionDigits.digits hds).settles hexponent after with ⟨rfl, hon⟩ | hsettles
  · refine Or.inl (hon.imp fun more ⟨gs, hgs⟩ => ?_)
    obtain ⟨kind, hpoint⟩ : IsNumeral strict ('.' :: (text ++ more ++ [])) :=
      ⟨_, .point hgs .empty⟩
    rw [List.append_nil] at hpoint ⊢
    exact ⟨kind, hpoint⟩
  have hbig : ¬(false = true ∧ exponent = [] ∧ after.head?.any (· == 'n') = true) :=
    fun h => nomatch h.1
  rcases finishDecimal_settles hexponent hvalue hbig with hon | hfinish
  · refine Or.inl (hon.imp fun more ⟨y, hy⟩ => ?_)
    rw [List.cons_append, List.append_assoc]
    exact ⟨_, .point hds hy⟩
  · exact Or.inr (hsettles.bind hfinish)

/-! ## Big integers -/

theorem bigDecimal_read {strict : Bool} {first : Char} {text : List Char} {ds : List Nat}
    (h : DecimalInteger (first :: text) ds) (after : List Char) :
    readNumberBody strict first (text ++ 'n' :: after) =
      .done (.bigInt (ofDigits 10 ds)) after := by
  have hbody : readNumberBody strict first (text ++ 'n' :: after) =
      readDecimalLiteral first (text ++ 'n' :: after) := by
    cases h with
    | zero => exact readNumberBody_zero (show leadsOn 'n' = false by decide)
    | nonzero hfirst _ => exact congrFun (readNumberBody_of_ne hfirst) _
  have hskip : skipIf '.' ('n' :: after) = .done false ('n' :: after) :=
    skipIf_of_ne fun hpoint => absurd (Option.some.inj hpoint) (by decide)
  have hexponent : readOptionalExponent ('n' :: after) = .done [] ('n' :: after) :=
    readOptionalExponent_of_head? (show isExponentMark 'n' = false by decide)
  have htail : readDecimalTail (first :: text) ('n' :: after) =
      .done (.bigInt (numeralValue 10 (withoutSeparators (first :: text)))) after := by
    rw [readDecimalTail, bind_of_done hskip]
    exact bind_of_done hexponent
  rw [hbody, readDecimalLiteral_of_ne h.first_ne, bind_of_done (h.readDigits_eq rfl), htail,
    numeralValue, h.haveValues.filterMap_eq]

/-! ## Other radices -/

/-- The end of a literal with a radix mark, behind its digits. -/
def readRadixTail (mark : RadixMark) (text : List Char) : Reader TokenKind := do
  if ← Reader.skipIf 'n' then
    return .bigInt (numeralValue mark.radix (withoutSeparators text))
  else
    return .number (Double.ofRadixDigits mark.radix
      ((withoutSeparators text).filterMap (digitValue? mark.radix)))

theorem readRadixLiteral_of_digit {mark : RadixMark} {cs : List Char}
    (h : cs.head?.any (isDigitOf mark.radix) = true) (letter : Char) :
    readRadixLiteral mark (letter :: cs) =
      (readDigits mark.radix false >>= readRadixTail mark) cs := by
  show (if (cs.head?.any (isDigitOf mark.radix)) = true then _ else _ : Reader TokenKind) cs = _
  rw [if_pos h]
  rfl

theorem readRadixLiteral_of_head? {mark : RadixMark} {cs : List Char}
    (h : cs.head?.any (isDigitOf mark.radix) = false) (letter : Char) :
    readRadixLiteral mark (letter :: cs) = .refused (.radixDigits mark) cs := by
  show (if (cs.head?.any (isDigitOf mark.radix)) = true then _ else _ : Reader TokenKind) cs = _
  rw [h, if_neg Bool.false_ne_true]
  rfl

section

variable {strict : Bool} {mark : RadixMark} {letter : Char} {text : List Char} {ds : List Nat}

theorem readRadixTail_big (hds : Digits mark.radix text ds) (after : List Char) :
    readRadixTail mark text ('n' :: after) = .done (.bigInt (ofDigits mark.radix ds)) after := by
  rw [readRadixTail, bind_of_done (skipIf_cons 'n' after), numeralValue,
    hds.haveValues.filterMap_eq]
  rfl

theorem readRadixTail_number (hds : Digits mark.radix text ds) {after : List Char}
    (h : after.head? ≠ some 'n') :
    readRadixTail mark text after = .done (.number (Double.ofRadixDigits mark.radix ds)) after := by
  rw [readRadixTail, bind_of_done (skipIf_of_ne h), hds.haveValues.filterMap_eq]
  rfl

theorem radix_settles (hletter : RadixMark.ofChar? letter = some mark)
    (hds : Digits mark.radix text ds) (after : List Char) :
    GoesOn (IsNumeral strict) ('0' :: letter :: text) after ∨
      Settles after (readRadixLiteral mark (letter :: (text ++ after)))
        (.number (Double.ofRadixDigits mark.radix ds)) after := by
  rw [readRadixLiteral_of_digit (hds.head?_append after)]
  rcases hds.settles false after with hon | hsettles
  · exact Or.inl (hon.imp fun more ⟨ds', hds'⟩ => ⟨_, .radix hletter hds'⟩)
  by_cases hn : after.head? = some 'n'
  · obtain ⟨cs, rfl⟩ := List.head?_eq_some_iff.1 hn
    exact Or.inl ⟨['n'], List.cons_ne_nil _ _, ⟨cs, rfl⟩, _, .bigRadix hletter hds⟩
  · exact Or.inr (hsettles.bind (Or.inl (readRadixTail_number hds hn)))

theorem bigRadix_read (hds : Digits mark.radix text ds) (after : List Char) :
    readRadixLiteral mark (letter :: (text ++ 'n' :: after)) =
      .done (.bigInt (ofDigits mark.radix ds)) after := by
  have hn : isDigitOf mark.radix 'n' = false := by
    cases mark <;> decide
  have hhead : ('n' :: after).head?.any (fun c => isDigitOf mark.radix c || c == '_') = false := by
    rw [List.head?_cons, Option.any_some, hn]
    rfl
  rw [readRadixLiteral_of_digit (hds.head?_append _), bind_of_done (hds.readDigits_eq false hhead),
    readRadixTail_big hds]

end

end Ecma
