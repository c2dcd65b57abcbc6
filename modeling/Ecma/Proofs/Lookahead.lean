import Ecma.Proofs.CodePoint
import Ecma.Token.Numeral
import Ecma.Token.Pattern
import Mathlib.Data.List.TakeWhile

/-!
# How far readers look ahead

A reader is *steady* if what it reads is settled by the characters it consumes and the one behind
them, and a space may stand in for that one: `Reader.Steady`. Names, numbers and regular expressions
are read by steady readers, so each of them is read the same with a space behind it, whatever it was
that stood there before.
-/

namespace Ecma

/-- A text goes on like another one, as far as its first character shows, or with a space. -/
def GoesOnLike (rest rest' : List Char) : Prop :=
  rest'.head? = rest.head? ∨ rest'.head? = some ' '

namespace GoesOnLike

variable {rest rest' : List Char}

theorem space (rest tail : List Char) : GoesOnLike rest (' ' :: tail) := Or.inr rfl

theorem append (h : GoesOnLike rest rest') (front : List Char) :
    GoesOnLike (front ++ rest) (front ++ rest') := by
  cases front with
  | nil => exact h
  | cons c front => exact Or.inl rfl

/-- A class without the space does not come next if it did not before. -/
theorem any_head? (h : GoesOnLike rest rest') {p : Char → Bool} (hp : p ' ' = false)
    (hr : rest.head?.any p = false) : rest'.head?.any p = false := by
  rcases h with h | h
  · rw [h, hr]
  · rw [h, Option.any_some, hp]

end GoesOnLike

/-! ## Readers -/

namespace Reader

variable {α β : Type}

/-- Whatever is read from a text is read from it whatever follows. -/
def Exact (m : Reader α) : Prop := ∀ ⦃cs rest : List Char⦄ ⦃a : α⦄, m cs = .done a rest →
  ∃ front, cs = front ++ rest ∧ ∀ rest', m (front ++ rest') = .done a rest'

/-- Whatever is read from a text is read from it whatever follows, if only that goes on like before
or with a space. -/
def Steady (m : Reader α) : Prop := ∀ ⦃cs rest : List Char⦄ ⦃a : α⦄, m cs = .done a rest →
  ∃ front, cs = front ++ rest ∧
    ∀ ⦃rest' : List Char⦄, GoesOnLike rest rest' → m (front ++ rest') = .done a rest'

theorem Exact.steady {m : Reader α} (h : Exact m) : Steady m := by
  intro cs rest a hread
  obtain ⟨front, hcs, hfront⟩ := h hread
  exact ⟨front, hcs, fun rest' _ => hfront rest'⟩

theorem steady_pure (a : α) : Steady (Pure.pure a : Reader α) := by
  intro cs rest b h
  cases h
  exact ⟨[], rfl, fun _ _ => rfl⟩

/-- A reader that always refuses has nothing to settle. -/
theorem steady_of_refused {m : Reader α} (h : ∀ cs, ∃ c rest, m cs = .refused c rest) :
    Steady m := by
  intro cs rest a hread
  obtain ⟨c, rest', href⟩ := h cs
  rw [href] at hread
  cases hread

theorem steady_refuse (c : Complaint) : Steady (refuse c : Reader α) :=
  steady_of_refused fun cs => ⟨c, cs, rfl⟩

theorem steady_map {m : Reader α} (hm : Steady m) (f : α → β) : Steady fun cs => (m cs).map f := by
  intro cs rest b h
  obtain ⟨a, hread, rfl⟩ := Read.map_eq_done.1 h
  obtain ⟨front, rfl, hfront⟩ := hm hread
  exact ⟨front, rfl, fun rest' hr => Read.map_eq_done.2 ⟨a, hfront hr, rfl⟩⟩

theorem steady_bind {m : Reader α} {f : α → Reader β} (hm : Steady m) (hf : ∀ a, Steady (f a)) :
    Steady (m >>= f) := by
  intro cs rest b h
  replace h : bind m f cs = .done b rest := h
  unfold bind at h
  split at h
  · rename_i a middle hread
    obtain ⟨first, rfl, hfirst⟩ := hm hread
    obtain ⟨second, rfl, hsecond⟩ := hf a h
    refine ⟨first ++ second, (List.append_assoc ..).symm, fun rest' hr => ?_⟩
    show bind m f (first ++ second ++ rest') = .done b rest'
    rw [List.append_assoc, bind, hfirst (hr.append second)]
    exact hsecond hr
  · cases h

/-- Behind a first character that is always consumed, a reader is as steady as with it. -/
theorem steady_cons {m : Reader α} (hm : Steady m) {c : Char}
    (hc : ∀ cs, (m (c :: cs)).rest <:+ cs) : Steady fun cs => m (c :: cs) := by
  intro cs rest a h
  replace h : m (c :: cs) = .done a rest := h
  obtain ⟨front, rfl⟩ : ∃ front, cs = front ++ rest := by
    have hrest := hc cs
    rw [h, Read.rest_done] at hrest
    obtain ⟨front, hfront⟩ := hrest
    exact ⟨front, hfront.symm⟩
  obtain ⟨front', hcs, hfront⟩ := hm h
  obtain rfl : c :: front = front' :=
    List.append_cancel_right (show (c :: front) ++ rest = front' ++ rest from hcs)
  exact ⟨front, rfl, hfront⟩

theorem steady_ite {c : Prop} [Decidable c] {m n : Reader α} (hm : Steady m) (hn : Steady n) :
    Steady (if c then m else n) := by
  split <;> assumption

/-- A reader that the next character decides on: one of a class is consumed, and without one of the
class, to which the space does not belong, another reader reads on. -/
theorem steady_of_head {p : Char → Bool} {m n : Reader α} (hp : p ' ' = false)
    (hm : ∀ c, p c = true → Steady fun cs => m (c :: cs))
    (heq : ∀ cs, cs.head?.any p = false → m cs = n cs) (hn : Steady n) : Steady m := by
  intro cs rest a h
  by_cases hnext : cs.head?.any p = true
  · cases cs with
    | nil => cases hnext
    | cons c cs =>
      obtain ⟨front, rfl, hfront⟩ := hm c hnext h
      exact ⟨c :: front, rfl, fun rest' hr => hfront hr⟩
  · rw [Bool.not_eq_true] at hnext
    rw [heq cs hnext] at h
    obtain ⟨front, rfl, hfront⟩ := hn h
    refine ⟨front, rfl, fun rest' hr => ?_⟩
    rw [heq _ ((hr.append front).any_head? hp hnext)]
    exact hfront hr

/-- A look at the next character that decides between two readers. -/
theorem steady_ifNext {p : Char → Bool} {m n : Reader α} (hp : p ' ' = false)
    (hm : ∀ c, p c = true → Steady fun cs => m (c :: cs)) (hn : Steady n) :
    Steady (do if ← next p then m else n) := by
  refine steady_of_head hp (fun c hc => ?_) (fun cs hcs => ?_) hn
  · have hread : (fun cs => (do if ← next p then m else n : Reader α) (c :: cs)) =
        fun cs => m (c :: cs) := by
      funext cs
      show (if p c then m else n) (c :: cs) = m (c :: cs)
      rw [if_pos hc]
    rw [hread]
    exact hm c hc
  · show (if cs.head?.any p then m else n) cs = n cs
    rw [if_neg (by rw [hcs]; exact Bool.false_ne_true)]

/-- A character that decides between two readers and is consumed for the first. -/
theorem steady_ifSkip {d : Char} {m n : Reader α} (hd : d ≠ ' ') (hm : Steady m) (hn : Steady n) :
    Steady (do if ← skipIf d then m else n) := by
  refine steady_of_head (p := (· == d)) (by simpa using hd.symm) (fun c hc => ?_)
    (fun cs hcs => ?_) hn
  · have hread : (fun cs => (do if ← skipIf d then m else n : Reader α) (c :: cs)) = m := by
      funext cs
      show bind (skipIf d) _ (c :: cs) = m cs
      simp only [bind, skipIf, hc, if_true]
    rw [hread]
    exact hm
  · cases cs with
    | nil => rfl
    | cons c cs =>
      have hc : (c == d) = false := hcs
      show bind (skipIf d) _ (c :: cs) = n (c :: cs)
      simp [bind, skipIf, hc]

/-- Characters of a class are taken up to the first that is not of it. -/
theorem steady_takeWhile {p : Char → Bool} (hp : p ' ' = false) : Steady (takeWhile p) := by
  intro cs rest taken h
  obtain ⟨rfl, rfl⟩ : cs.takeWhile p = taken ∧ cs.dropWhile p = rest := by
    simpa [takeWhile] using h
  refine ⟨cs.takeWhile p, List.takeWhile_append_dropWhile.symm, fun rest' hr => ?_⟩
  have hall : ∀ c ∈ cs.takeWhile p, p c = true := fun c hc => List.mem_takeWhile_imp hc
  have hnext : (cs.dropWhile p).head?.any p = false := by
    have := List.head?_dropWhile_not p cs
    cases hd : (cs.dropWhile p).head? with
    | none => rfl
    | some c => simpa [hd] using this
  have hstop : rest'.takeWhile p = [] ∧ rest'.dropWhile p = rest' := by
    have hnext' := hr.any_head? hp hnext
    cases rest' with
    | nil => exact ⟨rfl, rfl⟩
    | cons c tail =>
      have hc : p c = false := hnext'
      simp [hc]
  simp [takeWhile, List.takeWhile_append_of_pos hall, List.dropWhile_append_of_pos hall, hstop]

theorem steady_takeWhile_cons {p : Char → Bool} (hp : p ' ' = false) {c : Char} (hc : p c = true) :
    Steady fun cs => takeWhile p (c :: cs) := by
  have hread : (fun cs => takeWhile p (c :: cs)) = fun cs => (takeWhile p cs).map (c :: ·) := by
    funext cs
    simp [takeWhile, Read.map, hc]
  rw [hread]
  exact steady_map (steady_takeWhile hp) _

end Reader

open Reader

/-! ## Numbers -/

theorem isDigitOf_space (radix : Nat) : isDigitOf radix ' ' = false := by
  simp [isDigitOf, digitValue?]

theorem isIdentifierContinue_space : isIdentifierContinue ' ' = false := by decide

/-- Digits that are read leave no digit, and no separator, behind them. -/
theorem head?_readDigits {radix : Nat} {afterDigit : Bool} {cs ds rest : List Char}
    (h : readDigits radix afterDigit cs = .done ds rest) :
    rest.head?.any (fun c => isDigitOf radix c || c == '_') = false := by
  fun_induction readDigits radix afterDigit cs generalizing ds with
  | case1 => cases h; rfl
  | case2 afterDigit c cs hc ih =>
    obtain ⟨ds', hread, -⟩ := Read.map_eq_done.1 h
    exact ih hread
  | case3 afterDigit cs hc hsep ih =>
    obtain ⟨ds', hread, -⟩ := Read.map_eq_done.1 h
    exact ih hread
  | case4 => cases h
  | case5 afterDigit c cs hc hsep =>
    cases h
    simp [hc, hsep]

theorem readDigits_of_head? {radix : Nat} {cs : List Char}
    (h : cs.head?.any (fun c => isDigitOf radix c || c == '_') = false) (afterDigit : Bool) :
    readDigits radix afterDigit cs = .done [] cs := by
  cases cs with
  | nil => rfl
  | cons c cs =>
    simp only [List.head?_cons, Option.any_some, Bool.or_eq_false_iff, beq_eq_false_iff_ne] at h
    simp [readDigits, h.1, h.2]

theorem readDigits_digit {radix : Nat} {c : Char} (hc : isDigitOf radix c = true)
    (afterDigit : Bool) (cs : List Char) :
    readDigits radix afterDigit (c :: cs) = (readDigits radix true cs).map (c :: ·) := by
  rw [readDigits, if_pos hc]

theorem readDigits_separator {radix : Nat} {cs : List Char} (hsep : isDigitOf radix '_' = false)
    (hnext : cs.head?.any (isDigitOf radix) = true) :
    readDigits radix true ('_' :: cs) = (readDigits radix false cs).map ('_' :: ·) := by
  simp [readDigits, hsep, hnext]

theorem steady_readDigits (radix : Nat) (afterDigit : Bool) :
    Steady (readDigits radix afterDigit) := by
  intro cs rest ds h
  have hnext := head?_readDigits h
  have hstop : ∀ {rest'}, GoesOnLike rest rest' → ∀ afterDigit,
      readDigits radix afterDigit rest' = .done [] rest' := fun hr =>
    readDigits_of_head? (hr.any_head? (by simp [isDigitOf_space]) hnext)
  fun_induction readDigits radix afterDigit cs generalizing ds with
  | case1 afterDigit =>
    cases h
    exact ⟨[], rfl, fun rest' hr => hstop hr afterDigit⟩
  | case2 afterDigit c cs hc ih =>
    obtain ⟨ds', hread, rfl⟩ := Read.map_eq_done.1 h
    obtain ⟨front, rfl, hfront⟩ := ih hread
    refine ⟨c :: front, rfl, fun rest' hr => ?_⟩
    rw [List.cons_append, readDigits_digit hc, hfront hr]
    rfl
  | case3 afterDigit cs hbetween hsep ih =>
    obtain ⟨ds', hread, rfl⟩ := Read.map_eq_done.1 h
    obtain ⟨front, rfl, hfront⟩ := ih hread
    rw [Bool.and_eq_true] at hbetween
    obtain ⟨rfl, hdigit⟩ := hbetween
    -- the digit behind the separator is consumed too
    cases front with
    | nil =>
      cases rest with
      | nil => cases hdigit
      | cons d rest =>
        have hd : isDigitOf radix d = true := hdigit
        simp [hd] at hnext
    | cons d front =>
      refine ⟨'_' :: d :: front, rfl, fun rest' hr => ?_⟩
      rw [List.cons_append, readDigits_separator (by simpa using hsep) (by exact hdigit),
        hfront hr]
      rfl
  | case4 => cases h
  | case5 afterDigit c cs hc hsep =>
    cases h
    exact ⟨[], rfl, fun rest' hr => hstop hr afterDigit⟩

theorem steady_readDigits_cons {radix : Nat} {c : Char} (hc : isDigitOf radix c = true)
    (afterDigit : Bool) : Steady fun cs => readDigits radix afterDigit (c :: cs) := by
  have hread : (fun cs => readDigits radix afterDigit (c :: cs)) =
      fun cs => (readDigits radix true cs).map (c :: ·) := funext (readDigits_digit hc afterDigit)
  rw [hread]
  exact steady_map (steady_readDigits radix true) _

theorem steady_readSign : Steady readSign := by
  refine steady_of_head (p := fun c => c == '+' || c == '-') (n := Pure.pure []) (by decide)
    (fun c hc => ?_) (fun cs hcs => ?_) (steady_pure [])
  · have hsign : c = '+' ∨ c = '-' := by simpa using hc
    rcases hsign with rfl | rfl
    · exact steady_pure ['+']
    · exact steady_pure ['-']
  · unfold readSign
    split
    · cases hcs
    · cases hcs
    · rfl

theorem steady_readExponent (mark : Char) : Steady fun cs => readExponent (mark :: cs) := by
  refine steady_bind steady_readSign fun sign => ?_
  refine steady_ifNext (isDigitOf_space 10) (fun c hc => ?_) (steady_refuse _)
  exact steady_bind (steady_readDigits_cons hc false) fun ds => steady_pure _

theorem steady_readOptionalExponent : Steady readOptionalExponent :=
  steady_ifNext (by decide) (fun mark _ => steady_readExponent mark) (steady_pure [])

theorem steady_decimalToken (literal : List Char) : Steady (decimalToken literal) := by
  unfold decimalToken
  split
  · exact steady_pure _
  · exact steady_refuse _

theorem steady_readRadixLiteral (mark : RadixMark) (c : Char) :
    Steady fun cs => readRadixLiteral mark (c :: cs) := by
  refine steady_ifNext (isDigitOf_space mark.radix) (fun d hd => ?_) (steady_refuse _)
  refine steady_bind (steady_readDigits_cons hd false) fun ds => ?_
  exact steady_ifSkip (by decide) (steady_pure _) (steady_pure _)

theorem steady_readLegacyFraction : Steady readLegacyFraction := by
  refine steady_ifSkip (by decide) ?_ (steady_pure [])
  exact steady_bind (steady_takeWhile (isDigitOf_space 10)) fun ds => steady_pure _

theorem steady_finishLegacyNumber (ds : List Char) : Steady (finishLegacyNumber ds) := by
  refine steady_ite (steady_pure _) (steady_bind steady_readLegacyFraction fun fraction => ?_)
  exact steady_bind steady_readOptionalExponent fun exponent => steady_decimalToken _

theorem steady_readLegacyNumber (strict : Bool) {c : Char}
    (hc : (isDecimalDigit c || c == '_') = true) :
    Steady fun cs => readLegacyNumber strict (c :: cs) := by
  by_cases hsep : c = '_'
  · subst hsep
    exact steady_of_refused fun cs => ⟨_, _, rfl⟩
  · have hdigit : isDecimalDigit c = true := by simpa [hsep] using hc
    have hread : (fun cs => readLegacyNumber strict (c :: cs)) =
        (do
          let ds ← fun cs => takeWhile isDecimalDigit (c :: cs)
          if strict then refuse .legacyOctal
          else if ← next (· == 'n') then refuse .bigInt
          else finishLegacyNumber ds : Reader TokenKind) := by
      funext cs
      have hskip : skipIf '_' (c :: cs) = .done false (c :: cs) := by simp [skipIf, hsep]
      show Reader.bind (skipIf '_') _ (c :: cs) = _
      rw [Reader.bind, hskip]
      rfl
    rw [hread]
    refine steady_bind (steady_takeWhile_cons (isDigitOf_space 10) hdigit) fun ds => ?_
    refine steady_ite (steady_refuse _) (steady_ifNext (by decide) (fun d _ => ?_) ?_)
    · exact steady_of_refused fun cs => ⟨_, _, rfl⟩
    · exact steady_finishLegacyNumber ds

theorem steady_readFraction : Steady readFraction :=
  steady_ifNext (isDigitOf_space 10) (fun _ hc => steady_readDigits_cons hc false) (steady_pure [])

theorem steady_finishDecimal (isWhole : Bool) (mantissa : List Char) :
    Steady (finishDecimal isWhole mantissa) := by
  refine steady_bind steady_readOptionalExponent fun exponent => ?_
  refine steady_ifNext (by decide) (fun c _ => ?_) (steady_decimalToken _)
  split
  · exact steady_pure _
  · exact steady_of_refused fun cs => ⟨_, _, rfl⟩

theorem steady_readDecimalLiteral (first : Char) : Steady (readDecimalLiteral first) := by
  refine steady_ite (steady_bind steady_readFraction fun _ => steady_finishDecimal _ _) ?_
  refine steady_bind (steady_readDigits 10 true) fun whole => ?_
  refine steady_ifSkip (by decide) ?_ (steady_finishDecimal _ _)
  exact steady_bind steady_readFraction fun _ => steady_finishDecimal _ _

theorem steady_readNumberBody (strict : Bool) (first : Char) :
    Steady (readNumberBody strict first) := by
  by_cases hzero : first = '0'
  · subst hzero
    refine steady_of_head
      (p := fun c => (RadixMark.ofChar? c).isSome || (isDecimalDigit c || c == '_'))
      (n := readDecimalLiteral '0') (by decide) (fun c hc => ?_) (fun cs hcs => ?_)
      (steady_readDecimalLiteral '0')
    · cases hmark : RadixMark.ofChar? c with
      | some mark =>
        simp only [readNumberBody, hmark, if_true]
        exact steady_readRadixLiteral mark c
      | none =>
        have hlegacy : (isDecimalDigit c || c == '_') = true := by simpa [hmark] using hc
        simp only [readNumberBody, hmark, hlegacy, if_true]
        exact steady_readLegacyNumber strict hlegacy
    · cases cs with
      | nil => rfl
      | cons c cs =>
        obtain ⟨hmark, hlegacy⟩ := Bool.or_eq_false_iff.1 hcs
        have hnone : RadixMark.ofChar? c = none := by simpa using hmark
        simp [readNumberBody, hnone, hlegacy]
  · have hread : readNumberBody strict first = readDecimalLiteral first := by
      funext cs
      simp [readNumberBody, hzero]
    rw [hread]
    exact steady_readDecimalLiteral first

/-- A number is settled by its characters and the one behind it. -/
theorem steady_readNumber (strict : Bool) (first : Char) : Steady (readNumber strict first) := by
  refine steady_bind (steady_readNumberBody strict first) fun kind => ?_
  refine steady_ifNext (by decide) (fun c _ => ?_) (steady_pure kind)
  exact steady_of_refused fun cs => ⟨_, _, rfl⟩

/-! ## Names -/

theorem exact_readHexDigits (complaint : Complaint) (count value : Nat) :
    Exact (readHexDigits complaint count value) := by
  intro cs rest n h
  induction count generalizing value cs with
  | zero =>
    cases h
    exact ⟨[], rfl, fun _ => rfl⟩
  | succ count ih =>
    cases cs with
    | nil => cases h
    | cons c cs =>
      simp only [readHexDigits] at h
      split at h
      · rename_i d hd
        obtain ⟨front, rfl, hfront⟩ := ih _ h
        refine ⟨c :: front, rfl, fun rest' => ?_⟩
        simp only [List.cons_append, readHexDigits, hd]
        exact hfront rest'
      · cases h

theorem exact_readBracedDigits (value count : Nat) : Exact (readBracedDigits value count) := by
  intro cs rest n h
  fun_induction readBracedDigits value count cs with
  | case1 => cases h
  | case2 => cases h
  | case3 value count cs hcount =>
    cases h
    exact ⟨['\x7d'], rfl, fun _ => by simp [readBracedDigits, hcount]⟩
  | case4 => cases h
  | case5 => cases h
  | case6 value count c cs hc d hd hrange ih =>
    obtain ⟨front, rfl, hfront⟩ := ih h
    refine ⟨c :: front, rfl, fun rest' => ?_⟩
    simp only [List.cons_append, readBracedDigits, if_neg hc, hd, if_neg hrange]
    exact hfront rest'

theorem readCodePoint_of_ne {c : Char} (hc : c ≠ '\x7b') (cs : List Char) :
    readCodePoint (c :: cs) = readHexDigits .unicodeEscape 4 0 (c :: cs) := by
  unfold readCodePoint
  split
  · rename_i heq
    exact absurd (List.cons.inj heq).1 hc
  · rfl

theorem exact_readCodePoint : Exact readCodePoint := by
  intro cs rest n h
  cases cs with
  | nil => cases h
  | cons c cs =>
    by_cases hc : c = '\x7b'
    · subst hc
      obtain ⟨front, rfl, hfront⟩ := exact_readBracedDigits 0 0 h
      exact ⟨'\x7b' :: front, rfl, hfront⟩
    · rw [readCodePoint_of_ne hc] at h
      obtain ⟨front, hcs, hfront⟩ := exact_readHexDigits _ _ _ h
      cases front with
      | nil => cases hfront []
      | cons d front =>
        obtain ⟨rfl, rfl⟩ := List.cons.inj hcs
        refine ⟨c :: front, rfl, fun rest' => ?_⟩
        rw [List.cons_append, readCodePoint_of_ne hc]
        exact hfront rest'

theorem readPairedCodePoint_single {cs rest : List Char} {n : Nat}
    (h : readCodePoint cs = .done n rest) (hn : isUnitOf isHighSurrogate n = false) :
    readPairedCodePoint cs = .done n rest := by
  simp [readPairedCodePoint, h, hn]

theorem readPairedCodePoint_pair {cs second rest : List Char} {high low : Nat}
    (hhigh : readCodePoint cs = .done high ('\\' :: 'u' :: second))
    (huhigh : isUnitOf isHighSurrogate high = true) (hlow : readCodePoint second = .done low rest)
    (hulow : isUnitOf isLowSurrogate low = true) :
    readPairedCodePoint cs =
      .done (combineSurrogates (UInt16.ofNat high) (UInt16.ofNat low)) rest := by
  simp [readPairedCodePoint, hhigh, huhigh, hlow, hulow]

/-- Either one escape was read, or two that form a pair. -/
theorem readPairedCodePoint_cases {cs rest : List Char} {n : Nat}
    (h : readPairedCodePoint cs = .done n rest) :
    readCodePoint cs = .done n rest ∨
      ∃ high low second, readCodePoint cs = .done high ('\\' :: 'u' :: second) ∧
        isUnitOf isHighSurrogate high = true ∧ readCodePoint second = .done low rest ∧
        isUnitOf isLowSurrogate low = true ∧
        n = combineSurrogates (UInt16.ofNat high) (UInt16.ofNat low) := by
  unfold readPairedCodePoint at h
  split at h
  · cases h
  rename_i high middle hhigh
  split at h
  · rename_i huhigh
    split at h
    · rename_i second
      split at h
      · rename_i low rest' hlow
        split at h
        · rename_i hulow
          rw [Read.done.injEq] at h
          exact Or.inr ⟨high, low, second, hhigh, huhigh, h.2 ▸ hlow, hulow, h.1.symm⟩
        · exact Or.inl (hhigh.trans h)
      · exact Or.inl (hhigh.trans h)
    · exact Or.inl (hhigh.trans h)
  · exact Or.inl (hhigh.trans h)

theorem isSurrogate_of_isUnitOf {n : Nat} (h : isUnitOf isHighSurrogate n = true) :
    isSurrogate n = true := by
  simp only [isUnitOf, Bool.and_eq_true, decide_eq_true_eq, isHighSurrogate_eq] at h
  rw [toNat_ofNat16 (by omega)] at h
  simp only [isSurrogate, Bool.and_eq_true, decide_eq_true_eq]
  omega

/-- An escape that reads as a character is no half of a pair, so nothing behind it matters. -/
theorem readPairedCodePoint_settled {cs rest : List Char} {n : Nat}
    (h : readPairedCodePoint cs = .done n rest) (hn : isSurrogate n = false) :
    ∃ front, cs = front ++ rest ∧
      ∀ rest', readPairedCodePoint (front ++ rest') = .done n rest' := by
  rcases readPairedCodePoint_cases h with
    hone | ⟨high, low, second, hhigh, huhigh, hlow, hulow, hpair⟩
  · obtain ⟨front, rfl, hfront⟩ := exact_readCodePoint hone
    refine ⟨front, rfl, fun rest' => readPairedCodePoint_single (hfront rest') ?_⟩
    rw [← Bool.not_eq_true]
    intro huhigh
    rw [isSurrogate_of_isUnitOf huhigh] at hn
    cases hn
  · obtain ⟨first, rfl, hfirst⟩ := exact_readCodePoint hhigh
    obtain ⟨second, rfl, hsecond⟩ := exact_readCodePoint hlow
    refine ⟨first ++ '\\' :: 'u' :: second, by simp, fun rest' => ?_⟩
    rw [List.append_assoc, hpair]
    exact readPairedCodePoint_pair (hfirst _) huhigh (hsecond rest') hulow

theorem isSurrogate_of_identifierChar? {atStart : Bool} {n : Nat} {c : Char}
    (h : identifierChar? atStart n = some c) : isSurrogate n = false := by
  unfold identifierChar? at h
  split at h
  · cases h
  · rename_i hrange
    rw [Bool.or_eq_true, not_or] at hrange
    simpa using hrange.1

theorem readName_nil (atStart : Bool) : readName atStart [] = .done [] [] := by
  rw [readName]

theorem readName_escape {atStart : Bool} {body rest : List Char} {n : Nat} {c : Char}
    (h : readPairedCodePoint body = .done n rest) (hc : identifierChar? atStart n = some c) :
    readName atStart ('\\' :: 'u' :: body) = (readName false rest).map (c :: ·) := by
  rw [readName]
  simp only [if_true]
  split
  · rename_i href
    rw [h] at href
    cases href
  · rename_i n' rest' hread
    rw [h] at hread
    cases hread
    rw [hc]

theorem readName_part {atStart : Bool} {c : Char} (hback : c ≠ '\\')
    (hc : isIdentifierPart atStart c = true) (cs : List Char) :
    readName atStart (c :: cs) = (readName false cs).map (c :: ·) := by
  rw [readName.eq_def]
  simp [hback, hc]

theorem readName_of_head? {atStart : Bool} {cs : List Char}
    (h : cs.head?.any (fun c => c == '\\' || isIdentifierPart atStart c) = false) :
    readName atStart cs = .done [] cs := by
  cases cs with
  | nil => exact readName_nil atStart
  | cons c cs =>
    simp only [List.head?_cons, Option.any_some, Bool.or_eq_false_iff, beq_eq_false_iff_ne] at h
    rw [readName.eq_def]
    simp [h.1, h.2]

theorem isIdentifierPart_space (atStart : Bool) : isIdentifierPart atStart ' ' = false := by
  cases atStart <;> decide

/-- A name is settled by its characters and the one behind it. -/
theorem steady_readName (atStart : Bool) : Steady (readName atStart) := by
  intro cs rest name h
  fun_induction readName atStart cs generalizing name with
  | case1 atStart =>
    cases h
    refine ⟨[], rfl, fun rest' hr => readName_of_head? ?_⟩
    exact hr.any_head? (by simp [isIdentifierPart_space]) rfl
  | case2 => cases h
  | case3 atStart body codePoint middle hpair d hd ih =>
    obtain ⟨name', hread, rfl⟩ := Read.map_eq_done.1 h
    obtain ⟨second, rfl, hsecond⟩ := ih hread
    obtain ⟨first, rfl, hfirst⟩ :=
      readPairedCodePoint_settled hpair (isSurrogate_of_identifierChar? hd)
    refine ⟨'\\' :: 'u' :: (first ++ second), by simp, fun rest' hr => ?_⟩
    rw [List.cons_append, List.cons_append, List.append_assoc, readName_escape (hfirst _) hd,
      hsecond hr]
    rfl
  | case4 => cases h
  | case5 => cases h
  | case6 atStart c cs hback hpart ih =>
    obtain ⟨name', hread, rfl⟩ := Read.map_eq_done.1 h
    obtain ⟨front, rfl, hfront⟩ := ih hread
    refine ⟨c :: front, rfl, fun rest' hr => ?_⟩
    rw [List.cons_append, readName_part hback hpart, hfront hr]
    rfl
  | case7 atStart c cs hback hpart =>
    cases h
    refine ⟨[], rfl, fun rest' hr => readName_of_head? ?_⟩
    exact hr.any_head? (by simp [isIdentifierPart_space]) (by simp [hback, hpart])

/-! ## Regular expressions -/

theorem exact_readPattern (inClass : Bool) : Exact (readPattern inClass) := by
  intro cs rest pattern h
  fun_induction readPattern inClass cs generalizing pattern with
  | case1 => cases h
  | case2 => cases h
  | case3 inClass c cs hline hslash =>
    cases h
    refine ⟨[c], rfl, fun rest' => ?_⟩
    rw [List.cons_append, readPattern.eq_def]
    simp only [if_neg hline, if_pos hslash, List.nil_append]
  | case4 => cases h
  | case5 => cases h
  | case6 inClass d cs hline hslash hd ih =>
    obtain ⟨pattern', hread, rfl⟩ := Read.map_eq_done.1 h
    obtain ⟨front, rfl, hfront⟩ := ih hread
    refine ⟨'\\' :: d :: front, rfl, fun rest' => ?_⟩
    simp only [List.cons_append, readPattern, if_neg hline, if_neg hslash, if_true, if_neg hd,
      hfront rest']
    rfl
  | case7 inClass c cs hline hslash hback inner =>
    rename_i ih
    obtain ⟨pattern', hread, rfl⟩ := Read.map_eq_done.1 h
    obtain ⟨front, rfl, hfront⟩ := ih hread
    refine ⟨c :: front, rfl, fun rest' => ?_⟩
    rw [List.cons_append, readPattern.eq_def]
    simp only [if_neg hline, if_neg hslash, if_neg hback]
    exact Read.map_eq_done.2 ⟨pattern', hfront rest', rfl⟩

/-- A regular expression is settled by its characters and the one behind its flags. -/
theorem steady_readRegExp : Steady readRegExp := by
  have hread : readRegExp = (do
      let pattern ← readPattern false
      let flags ← takeWhile isIdentifierContinue
      return (pattern, flags) : Reader (List Char × List Char)) := by
    funext cs
    show _ = Reader.bind (readPattern false) _ cs
    unfold readRegExp Reader.bind
    split
    · rename_i heq
      rw [heq]
    · rename_i heq
      rw [heq]
      rfl
  rw [hread]
  refine steady_bind (exact_readPattern false).steady fun pattern => ?_
  exact steady_bind (steady_takeWhile isIdentifierContinue_space) fun flags => steady_pure _

end Ecma
