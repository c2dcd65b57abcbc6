import Ecma.Proofs.Spelling
import Ecma.Token.Scanner

/-!
# No token ends inside a line end

A carriage return and a line feed right behind it are one line end, so counting lines token by token
is right only if no token ends between the two. Most tokens stay on their line (`InLine`), strings
and templates pass over whole line ends (`CleanCut`, and `Cursor.Passes` for a cursor), and the one
token that may do neither is a name with a backslash that starts no escape: it moves over the
character behind the backslash, whatever that is (`Cursor.lex_passes`).
-/

namespace Ecma

/-- The second text is left of the first one behind characters of one line. -/
inductive InLine : List Char → List Char → Prop where
  | refl (cs : List Char) : InLine cs cs
  | cons {c : Char} {cs rest : List Char} (hc : isLineTerminator c = false) (h : InLine cs rest) :
      InLine (c :: cs) rest

/-- The second text is left of the first one behind whole line ends and other characters. -/
inductive CleanCut : List Char → List Char → Prop where
  | refl (cs : List Char) : CleanCut cs cs
  | char {c : Char} {cs rest : List Char} (hc : ¬(c = '\r' ∧ cs.head? = some '\n'))
      (h : CleanCut cs rest) : CleanCut (c :: cs) rest
  | lineEnd {cs rest : List Char} (h : CleanCut cs rest) : CleanCut ('\r' :: '\n' :: cs) rest

theorem InLine.trans {cs rest rest' : List Char} (h : InLine cs rest) (h' : InLine rest rest') :
    InLine cs rest' := by
  induction h with
  | refl cs => exact h'
  | cons hc _ ih => exact .cons hc (ih h')

theorem CleanCut.trans {cs rest rest' : List Char} (h : CleanCut cs rest)
    (h' : CleanCut rest rest') : CleanCut cs rest' := by
  induction h with
  | refl cs => exact h'
  | char hc _ ih => exact .char hc (ih h')
  | lineEnd _ ih => exact .lineEnd (ih h')

theorem CleanCut.cons {c : Char} {cs rest : List Char} (hc : c ≠ '\r') (h : CleanCut cs rest) :
    CleanCut (c :: cs) rest := .char (fun hr => hc hr.1) h

theorem InLine.tail {c : Char} {cs rest : List Char} (h : InLine (c :: cs) rest)
    (hs : rest <:+ cs) : InLine cs rest := by
  cases h with
  | refl =>
    have hlength := hs.length_le
    rw [List.length_cons] at hlength
    omega
  | cons _ h => exact h

theorem InLine.cleanCut {cs rest : List Char} (h : InLine cs rest) : CleanCut cs rest := by
  induction h with
  | refl cs => exact .refl cs
  | cons hc _ ih =>
    refine .cons ?_ ih
    rintro rfl
    cases hc

theorem CleanCut.tail {c : Char} {cs rest : List Char} (hc : c ≠ '\r')
    (h : CleanCut (c :: cs) rest) : rest = c :: cs ∨ CleanCut cs rest := by
  cases h with
  | refl => exact Or.inl rfl
  | char _ h => exact Or.inr h
  | lineEnd h => exact absurd rfl hc

/-- Only a text that starts with a line feed can be cut off inside a line end. -/
theorem cleanCut_of_head {cs rest : List Char} (hs : rest <:+ cs)
    (hhead : rest.head? ≠ some '\n') : CleanCut cs rest := by
  obtain ⟨front, rfl⟩ := hs
  induction front with
  | nil => exact .refl rest
  | cons c front ih =>
    by_cases hc : c = '\r' ∧ (front ++ rest).head? = some '\n'
    · obtain ⟨rfl, hnext⟩ := hc
      cases front with
      | nil => exact absurd hnext hhead
      | cons d front =>
        obtain rfl : d = '\n' := Option.some.inj hnext
        rcases ih.tail (by decide) with heq | h
        · rw [heq] at hhead
          exact absurd rfl hhead
        · exact .lineEnd h
    · exact .char hc ih

theorem CleanCut.suffix {cs rest : List Char} (h : CleanCut cs rest) : rest <:+ cs := by
  induction h with
  | refl cs => exact List.suffix_rfl
  | char _ _ ih => exact ih.trans (List.suffix_cons ..)
  | lineEnd _ ih => exact ih.trans ((List.suffix_cons ..).trans (List.suffix_cons ..))

/-- A clean cut does not part a carriage return from a line feed. -/
theorem CleanCut.not_parts {front rest : List Char} (h : CleanCut (front ++ rest) rest) :
    ¬(front.getLast? = some '\r' ∧ rest.head? = some '\n') := by
  generalize hcs : front ++ rest = cs at h
  induction h generalizing front with
  | refl rest =>
    obtain rfl : front = [] := List.append_left_eq_self.1 hcs
    rintro ⟨hlast, -⟩
    cases hlast
  | @char c cs rest hc h ih =>
    cases front with
    | nil =>
      have hlength := h.suffix.length_le
      rw [List.nil_append] at hcs
      rw [hcs, List.length_cons] at hlength
      omega
    | cons d front =>
      obtain ⟨rfl, rfl⟩ := List.cons.inj hcs
      cases front with
      | nil =>
        rintro ⟨hlast, hhead⟩
        exact hc ⟨Option.some.inj hlast, hhead⟩
      | cons e front =>
        rw [List.getLast?_cons_cons]
        exact ih rfl
  | @lineEnd cs rest h ih =>
    have hlength := h.suffix.length_le
    cases front with
    | nil =>
      rw [List.nil_append] at hcs
      rw [hcs, List.length_cons, List.length_cons] at hlength
      omega
    | cons c front =>
      have hcs' : front ++ rest = '\n' :: cs := (List.cons.inj hcs).2
      cases front with
      | nil =>
        rw [List.nil_append] at hcs'
        rw [hcs', List.length_cons] at hlength
        omega
      | cons d front =>
        obtain ⟨rfl, rfl⟩ := List.cons.inj hcs'
        cases front with
        | nil =>
          rintro ⟨hlast, -⟩
          cases hlast
        | cons e front =>
          rw [List.getLast?_cons_cons, List.getLast?_cons_cons]
          exact ih rfl

theorem InLine.exists_front {cs rest : List Char} (h : InLine cs rest) :
    ∃ front, cs = front ++ rest ∧ ∀ c ∈ front, isLineTerminator c = false := by
  induction h with
  | refl cs => exact ⟨[], rfl, nofun⟩
  | cons hc _ ih =>
    obtain ⟨front, rfl, hfront⟩ := ih
    exact ⟨_ :: front, rfl, List.forall_mem_cons.2 ⟨hc, hfront⟩⟩

/-! ## Readers that stay on the line -/

/-- The characters that end a line. -/
def lineTerminators : List Char := ['\n', '\r', '\u2028', '\u2029']

theorem mem_lineTerminators {c : Char} : c ∈ lineTerminators ↔ isLineTerminator c = true := by
  simp [isLineTerminator, lineTerminators, or_assoc]

/-- A class without line terminators stays on the line. -/
theorem isLineTerminator_of_class {p : Char → Bool} (hp : lineTerminators.any p = false)
    {c : Char} (hc : p c = true) : isLineTerminator c = false := by
  rw [← Bool.not_eq_true]
  intro hline
  exact List.any_eq_false.1 hp c (mem_lineTerminators.2 hline) hc

theorem isLineTerminator_of_digit {radix : Nat} {c : Char} (hc : isDigitOf radix c = true) :
    isLineTerminator c = false := by
  refine isLineTerminator_of_class (List.any_eq_false.2 fun d hd => ?_) hc
  have hvalue : digitValue? radix d = none := by
    simp only [lineTerminators, List.mem_cons, List.not_mem_nil, or_false] at hd
    rcases hd with rfl | rfl | rfl | rfl
    all_goals exact if_neg (Nat.lt_irrefl radix)
  rw [isDigitOf, hvalue]
  exact Bool.false_ne_true

/-- Ranges are looked through from the first one on. -/
theorem inRanges_eq (ranges : Array (Nat × Nat)) (n : Nat) :
    inRanges ranges n = ranges.toList.any fun r => r.1 ≤ n && n ≤ r.2 :=
  (Array.any_toList ..).symm

theorem isLineTerminator_of_part {atStart : Bool} {c : Char}
    (hc : isIdentifierPart atStart c = true) : isLineTerminator c = false := by
  refine isLineTerminator_of_class ?_ hc
  cases atStart with
  | true =>
    simp only [lineTerminators, List.any_cons, isIdentifierPart, isIdentifierStart, isXidStart,
      inRanges_eq]
    decide +kernel
  | false =>
    simp only [lineTerminators, List.any_cons, isIdentifierPart, isIdentifierContinue,
      isXidContinue, inRanges_eq]
    decide +kernel

theorem inLine_dropWhile {p : Char → Bool} (hp : ∀ c, p c = true → isLineTerminator c = false)
    (cs : List Char) : InLine cs (cs.dropWhile p) := by
  induction cs with
  | nil => exact .refl []
  | cons c cs ih =>
    rw [List.dropWhile_cons]
    split
    · rename_i hc
      exact .cons (hp c hc) ih
    · exact .refl (c :: cs)

namespace Reader

variable {α β : Type}

/-- All that a reader consumes is on one line. -/
def OnLine (m : Reader α) : Prop := ∀ cs, InLine cs (m cs).rest

theorem onLine_pure (a : α) : OnLine (Pure.pure a : Reader α) := fun cs => .refl cs

theorem onLine_refuse (c : Complaint) : OnLine (refuse c : Reader α) := fun cs => .refl cs

theorem onLine_bind {m : Reader α} {f : α → Reader β} (hm : OnLine m) (hf : ∀ a, OnLine (f a)) :
    OnLine (m >>= f) := by
  intro cs
  have h := hm cs
  change InLine cs (bind m f cs).rest
  unfold bind
  split
  · rename_i a rest heq
    rw [heq] at h
    exact h.trans (hf a rest)
  · rename_i c rest heq
    rw [heq] at h
    exact h

theorem onLine_ite {c : Prop} [Decidable c] {m n : Reader α} (hm : OnLine m) (hn : OnLine n) :
    OnLine (if c then m else n) := by
  split
  · exact hm
  · exact hn

theorem onLine_takeWhile {p : Char → Bool} (hp : ∀ c, p c = true → isLineTerminator c = false) :
    OnLine (takeWhile p) := fun cs => inLine_dropWhile hp cs

/-- A choice by the next character: only where there is one of the class does the first reader have
to stay on the line. -/
theorem onLine_ifNext {p : Char → Bool} {m n : Reader α}
    (hm : ∀ c cs, p c = true → InLine (c :: cs) (m (c :: cs)).rest) (hn : OnLine n) :
    OnLine (do if ← next p then m else n) := by
  intro cs
  change InLine cs ((if cs.head?.any p then m else n) cs).rest
  cases cs with
  | nil => exact hn []
  | cons c cs =>
    split
    · rename_i hc
      exact hm c cs hc
    · exact hn (c :: cs)

theorem onLine_ifSkip {d : Char} (hd : isLineTerminator d = false) {m n : Reader α} (hm : OnLine m)
    (hn : OnLine n) : OnLine (do if ← skipIf d then m else n) := by
  refine onLine_bind (fun cs => ?_) fun b => onLine_ite hm hn
  unfold skipIf
  split
  · split
    · rename_i c rest hc
      rw [beq_iff_eq] at hc
      subst hc
      exact .cons hd (.refl rest)
    · exact .refl _
  · exact .refl []

end Reader

section Numbers

open Reader

theorem onLine_readDigits (radix : Nat) (afterDigit : Bool) :
    OnLine (readDigits radix afterDigit) := by
  intro cs
  fun_induction readDigits radix afterDigit cs with
  | case1 => exact .refl []
  | case2 _ c cs hc ih =>
    rw [Read.rest_map]
    exact .cons (isLineTerminator_of_digit hc) ih
  | case3 _ cs _ _ ih =>
    rw [Read.rest_map]
    exact .cons rfl ih
  | case4 _ cs _ _ => exact .cons rfl (.refl cs)
  | case5 => exact .refl _

theorem onLine_readSign : OnLine readSign := by
  intro cs
  unfold readSign
  split
  · exact .cons rfl (.refl _)
  · exact .cons rfl (.refl _)
  · exact .refl _

theorem isLineTerminator_of_exponentMark {c : Char} (hc : isExponentMark c = true) :
    isLineTerminator c = false := isLineTerminator_of_class (by decide) hc

theorem onLine_readOptionalExponent : OnLine readOptionalExponent := by
  refine onLine_ifNext (fun mark cs hmark => ?_) (onLine_pure _)
  refine .cons (isLineTerminator_of_exponentMark hmark) ?_
  refine onLine_bind onLine_readSign (fun sign => ?_) cs
  refine onLine_ifNext (fun c cs _ => ?_) (onLine_refuse _)
  exact onLine_bind (onLine_readDigits 10 false) (fun ds => onLine_pure _) (c :: cs)

theorem onLine_decimalToken (literal : List Char) : OnLine (decimalToken literal) := by
  unfold decimalToken
  split
  · exact onLine_pure _
  · exact onLine_refuse _

theorem onLine_readFraction : OnLine readFraction :=
  onLine_ifNext (fun c cs _ => onLine_readDigits 10 false (c :: cs)) (onLine_pure _)

theorem onLine_finishDecimal (isWhole : Bool) (mantissa : List Char) :
    OnLine (finishDecimal isWhole mantissa) := by
  refine onLine_bind onLine_readOptionalExponent fun exponent => ?_
  refine onLine_ifNext (fun c cs hc => ?_) (onLine_decimalToken _)
  rw [beq_iff_eq] at hc
  subst hc
  split
  · exact .cons rfl (.refl cs)
  · exact .refl _

theorem onLine_readDecimalLiteral (first : Char) : OnLine (readDecimalLiteral first) := by
  refine onLine_ite (onLine_bind onLine_readFraction fun _ => onLine_finishDecimal _ _) ?_
  refine onLine_bind (onLine_readDigits 10 true) fun whole => ?_
  refine onLine_ifSkip rfl ?_ (onLine_finishDecimal _ _)
  exact onLine_bind onLine_readFraction fun _ => onLine_finishDecimal _ _

theorem inLine_readRadixLiteral (mark : RadixMark) {c : Char} (hc : isLineTerminator c = false)
    (cs : List Char) : InLine (c :: cs) (readRadixLiteral mark (c :: cs)).rest := by
  refine .cons hc ?_
  change InLine cs ((do
    if ← next (isDigitOf mark.radix) then
      let ds := withoutSeparators (← readDigits mark.radix false)
      if ← skipIf 'n' then
        return .bigInt (numeralValue mark.radix ds)
      else
        return .number (Double.ofRadixDigits mark.radix (ds.filterMap (digitValue? mark.radix)))
    else
      refuse (.radixDigits mark) : Reader TokenKind) cs).rest
  refine onLine_ifNext (fun c cs _ => ?_) (onLine_refuse _) cs
  refine onLine_bind (onLine_readDigits mark.radix false) (fun ds => ?_) (c :: cs)
  exact onLine_ifSkip rfl (onLine_pure _) (onLine_pure _)

theorem onLine_readLegacyFraction : OnLine readLegacyFraction := by
  refine onLine_ifSkip rfl ?_ (onLine_pure _)
  exact onLine_bind (onLine_takeWhile fun c => isLineTerminator_of_digit) fun _ => onLine_pure _

theorem onLine_finishLegacyNumber (ds : List Char) : OnLine (finishLegacyNumber ds) := by
  refine onLine_ite (onLine_pure _) (onLine_bind onLine_readLegacyFraction fun fraction => ?_)
  exact onLine_bind onLine_readOptionalExponent fun exponent => onLine_decimalToken _

theorem onLine_readLegacyNumber (strict : Bool) : OnLine (readLegacyNumber strict) := by
  refine onLine_ifSkip rfl (onLine_refuse _) ?_
  refine onLine_bind (onLine_takeWhile fun c => isLineTerminator_of_digit) fun ds => ?_
  refine onLine_ite (onLine_refuse _) ?_
  exact onLine_ifNext (fun c cs _ => .refl _) (onLine_finishLegacyNumber ds)

theorem isLineTerminator_of_radixMark {c : Char} {mark : RadixMark}
    (h : RadixMark.ofChar? c = some mark) : isLineTerminator c = false := by
  refine isLineTerminator_of_class (p := fun c => (RadixMark.ofChar? c).isSome) (by decide) ?_
  rw [h]
  rfl

theorem onLine_readNumberBody (strict : Bool) (first : Char) :
    OnLine (readNumberBody strict first) := by
  intro cs
  unfold readNumberBody
  split
  · split
    · exact onLine_readDecimalLiteral first _
    · split
      · rename_i hmark
        exact inLine_readRadixLiteral _ (isLineTerminator_of_radixMark hmark) _
      · split
        · exact onLine_readLegacyNumber strict _
        · exact onLine_readDecimalLiteral first _
  · exact onLine_readDecimalLiteral first _

theorem onLine_readNumber (strict : Bool) (first : Char) : OnLine (readNumber strict first) := by
  refine onLine_bind (onLine_readNumberBody strict first) fun kind => ?_
  exact onLine_ifNext (fun c cs _ => .refl _) (onLine_pure _)

end Numbers

section Patterns

open Reader

theorem onLine_readPattern (inClass : Bool) : OnLine (readPattern inClass) := by
  intro cs
  fun_induction readPattern inClass cs with
  | case1 => exact .refl []
  | case2 => exact .refl _
  | case3 inClass c cs hc h =>
    rw [Bool.not_eq_true] at hc
    exact .cons hc (.refl cs)
  | case4 => exact .cons rfl (.refl [])
  | case5 => exact .cons rfl (.refl _)
  | case6 inClass d rest hd _ _ ih =>
    rw [Read.rest_map]
    rw [Bool.not_eq_true] at hd
    exact .cons rfl (.cons hd ih)
  | case7 inClass c cs hc _ _ _ ih =>
    rw [Read.rest_map]
    rw [Bool.not_eq_true] at hc
    exact .cons hc ih

theorem onLine_readRegExp : OnLine readRegExp := by
  intro cs
  have h := onLine_readPattern false cs
  unfold readRegExp
  split
  · rename_i complaint rest heq
    rw [heq] at h
    exact h
  · rename_i pattern rest heq
    rw [heq] at h
    have hflags : ∀ c, isIdentifierContinue c = true → isLineTerminator c = false := by
      intro c hc
      have hpart : isIdentifierPart false c = true := hc
      exact isLineTerminator_of_part hpart
    exact h.trans (inLine_dropWhile hflags rest)

end Patterns

theorem inLine_append {front rest : List Char} (h : ∀ c ∈ front, isLineTerminator c = false) :
    InLine (front ++ rest) rest := by
  induction front with
  | nil => exact .refl rest
  | cons c front ih =>
    exact .cons (h c List.mem_cons_self) (ih fun d hd => h d (List.mem_cons_of_mem c hd))

theorem inLine_lexPunctuator (n : Nesting) {c : Char} (hc : isLineTerminator c = false)
    (cs : List Char) : InLine (c :: cs) (lexPunctuator n c cs).rest := by
  unfold lexPunctuator
  split
  · rename_i p rest hread
    have hspelling : p.spelling.toList.any isLineTerminator = false := by cases p <;> rfl
    rw [Punctuator.readFrom?_spelling hread]
    refine inLine_append fun d hd => ?_
    rw [← Bool.not_eq_true]
    exact List.any_eq_false.1 hspelling d hd
  · exact .cons hc (.refl cs)

/-! ## Escapes -/

section Escapes

open Reader

theorem onLine_readHexDigits (complaint : Complaint) (count value : Nat) :
    OnLine (readHexDigits complaint count value) := by
  induction count generalizing value with
  | zero => exact fun cs => .refl cs
  | succ count ih =>
    intro cs
    cases cs with
    | nil => exact .refl []
    | cons c cs =>
      unfold readHexDigits
      dsimp only
      split
      · rename_i d hd
        have hdigit : isDigitOf 16 c = true := by rw [isDigitOf, hd]; rfl
        exact .cons (isLineTerminator_of_digit hdigit) (ih _ cs)
      · exact .refl (c :: cs)

theorem onLine_readBracedDigits (value count : Nat) : OnLine (readBracedDigits value count) := by
  intro cs
  induction cs generalizing value count with
  | nil => exact .refl []
  | cons c cs ih =>
    unfold readBracedDigits
    split
    · rename_i hc
      subst hc
      split
      · exact .cons rfl (.refl cs)
      · exact .cons rfl (.refl cs)
    · split
      · exact .refl (c :: cs)
      · rename_i d hd
        have hdigit : isDigitOf 16 c = true := by rw [isDigitOf, hd]; rfl
        split
        · exact .refl (c :: cs)
        · exact .cons (isLineTerminator_of_digit hdigit) (ih _ _)

theorem onLine_readCodePoint : OnLine readCodePoint := by
  intro cs
  unfold readCodePoint
  split
  · exact .cons rfl (onLine_readBracedDigits 0 0 _)
  · exact onLine_readHexDigits _ 4 0 _

theorem onLine_readPairedCodePoint : OnLine readPairedCodePoint := by
  intro cs
  have h := onLine_readCodePoint cs
  unfold readPairedCodePoint
  split
  · rename_i c rest heq
    rw [heq] at h
    exact h
  · rename_i high rest heq
    rw [heq] at h
    split
    · split
      · rename_i second
        have hsecond := onLine_readCodePoint second
        split
        · rename_i low rest' heq'
          rw [heq'] at hsecond
          have hpair : InLine ('\\' :: 'u' :: second) rest' := .cons rfl (.cons rfl hsecond)
          split
          · exact h.trans hpair
          · exact h
        · exact h
      · exact h
    · exact h

theorem inLine_readOctalDigits (count value : Nat) (cs : List Char) :
    InLine cs (readOctalDigits count value cs).2 := by
  induction count generalizing value cs with
  | zero => exact .refl cs
  | succ count ih =>
    cases cs with
    | nil => exact .refl []
    | cons c cs =>
      unfold readOctalDigits
      split
      · rename_i d hd
        have hdigit : isDigitOf 8 c = true := by rw [isDigitOf, hd]; rfl
        exact .cons (isLineTerminator_of_digit hdigit) (ih _ cs)
      · exact .refl (c :: cs)

theorem onLine_readOctalEscape (context : EscapeContext) (first : Nat) :
    OnLine (readOctalEscape context first) := by
  intro cs
  unfold readOctalEscape
  split
  · exact .refl cs
  · split
    · exact .refl cs
    · exact inLine_readOctalDigits ..

end Escapes

/-! ## Strings and templates -/

namespace Reader

variable {α : Type}

/-- A reader never complains about a backslash in a name. -/
def Unnamed (m : Reader α) : Prop := ∀ cs rest, m cs ≠ .refused .identifierEscape rest

end Reader

section Quoted

open Reader

theorem unnamed_readHexDigits {complaint : Complaint} (hc : complaint ≠ .identifierEscape)
    (count value : Nat) : Unnamed (readHexDigits complaint count value) := by
  induction count generalizing value with
  | zero => exact fun cs rest => nofun
  | succ count ih =>
    intro cs rest h
    cases cs with
    | nil =>
      obtain ⟨hcomplaint, -⟩ := Read.refused.inj h
      exact hc hcomplaint
    | cons c cs =>
      unfold readHexDigits at h
      dsimp only at h
      split at h
      · exact ih _ cs rest h
      · obtain ⟨hcomplaint, -⟩ := Read.refused.inj h
        exact hc hcomplaint

theorem unnamed_readBracedDigits (value count : Nat) : Unnamed (readBracedDigits value count) := by
  intro cs rest h
  induction cs generalizing value count with
  | nil => cases h
  | cons c cs ih =>
    unfold readBracedDigits at h
    split at h
    · split at h
      · cases h
      · cases h
    · split at h
      · cases h
      · split at h
        · cases h
        · exact ih _ _ h

theorem unnamed_readPairedCodePoint : Unnamed readPairedCodePoint := by
  have hcode : Unnamed readCodePoint := by
    intro cs rest h
    unfold readCodePoint at h
    split at h
    · exact unnamed_readBracedDigits 0 0 _ _ h
    · exact unnamed_readHexDigits (by decide) 4 0 _ _ h
  intro cs rest h
  unfold readPairedCodePoint at h
  split at h
  · rename_i complaint rest' hread
    rw [h] at hread
    exact hcode cs rest hread
  · split at h
    · split at h
      · split at h
        · split at h
          · cases h
          · cases h
        · cases h
      · cases h
    · cases h

theorem unnamed_readOctalEscape (context : EscapeContext) (first : Nat) :
    Unnamed (readOctalEscape context first) := by
  intro cs rest h
  unfold readOctalEscape at h
  split at h
  · cases h
  · split at h
    · rename_i complaint hcomplaint
      obtain ⟨rfl, -⟩ := Read.refused.inj h
      cases context <;> cases hcomplaint
    · cases h

theorem unnamed_readEscape (context : EscapeContext) : Unnamed (readEscape context) := by
  intro cs rest h
  cases cs with
  | nil => cases h
  | cons c cs =>
    simp only [readEscape] at h
    split at h
    · cases h
    split at h
    · exact unnamed_readOctalEscape context _ _ _ h
    split at h
    · split at h
      · rename_i complaint hcomplaint
        obtain ⟨rfl, -⟩ := Read.refused.inj h
        cases context <;> cases hcomplaint
      · cases h
    split at h
    · exact unnamed_readHexDigits (by decide) 2 0 _ _ (Read.map_eq_refused.1 h)
    split at h
    · exact unnamed_readPairedCodePoint _ _ (Read.map_eq_refused.1 h)
    split at h
    · cases h
    · cases h

theorem cleanCut_afterLineTerminator (c : Char) (cs : List Char) :
    CleanCut (c :: cs) (afterLineTerminator c cs) := by
  unfold afterLineTerminator
  split
  · rename_i rest
    split
    · rename_i hc
      subst hc
      exact .lineEnd (.refl rest)
    · rename_i hc
      exact .cons hc (.refl _)
  · rename_i hnext
    refine .char (fun h => ?_) (.refl cs)
    cases cs with
    | nil => cases h.2
    | cons d cs => exact hnext cs (congrArg (· :: cs) (Option.some.inj h.2))

theorem inLine_readEscape (context : EscapeContext) {c : Char} (hc : isLineTerminator c = false)
    (cs : List Char) : InLine (c :: cs) (readEscape context (c :: cs)).rest := by
  refine .cons hc ?_
  simp only [readEscape]
  split
  · exact .refl cs
  split
  · exact onLine_readOctalEscape ..
  split
  · split
    · exact .refl cs
    · exact .refl cs
  split
  · rw [Read.rest_map]
    exact onLine_readHexDigits ..
  split
  · rw [Read.rest_map]
    exact onLine_readPairedCodePoint _
  split
  · rename_i hline
    rw [hc] at hline
    cases hline
  · exact .refl cs

theorem cleanCut_readEscape (context : EscapeContext) (cs : List Char) :
    CleanCut cs (readEscape context cs).rest := by
  cases cs with
  | nil => exact .refl []
  | cons c cs =>
    by_cases hc : isLineTerminator c = true
    · rw [readEscape_lineTerminator context hc]
      exact cleanCut_afterLineTerminator c cs
    · exact (inLine_readEscape context (Bool.eq_false_iff.2 hc) cs).cleanCut

theorem unnamed_readString (context : EscapeContext) (quote : Char) :
    Unnamed (readString context quote) := by
  intro cs rest h
  fun_induction readString context quote cs with
  | case1 => cases h
  | case2 cs => cases h
  | case3 => cases h
  | case4 cs complaint rest' hread _ _ =>
    obtain ⟨rfl, -⟩ := Read.refused.inj h
    exact unnamed_readEscape context cs rest' hread
  | case5 cs units rest' hread _ _ ih => exact ih (Read.map_eq_refused.1 h)
  | case6 c cs hquote hline hb ih => exact ih (Read.map_eq_refused.1 h)

theorem unnamed_readTemplate : Unnamed readTemplate := by
  intro cs rest h
  fun_induction readTemplate cs with
  | case1 => cases h
  | case2 cs => cases h
  | case3 cs _ escape ih => exact ih (Read.map_eq_refused.1 h)
  | case4 cs _ _ ih => exact ih (Read.map_eq_refused.1 h)
  | case5 => cases h
  | case6 c cs _ _ _ _ ih => exact ih (Read.map_eq_refused.1 h)

end Quoted

/-! ## Names -/

/-- A name stays on its line, or is refused for a backslash, which is on the line, together with the
character behind it. -/
theorem readName_cut (atStart : Bool) (cs : List Char) :
    InLine cs (readName atStart cs).rest ∨
      ∃ tail, readName atStart cs = .refused .identifierEscape (tail.drop 1) ∧
        InLine cs ('\\' :: tail) := by
  have hescape : ∀ {body rest : List Char} {r : Read Nat}, readPairedCodePoint body = r →
      r.rest = rest → InLine ('\\' :: 'u' :: body) rest := by
    intro body rest r hr hrest
    have h := onLine_readPairedCodePoint body
    rw [hr, hrest] at h
    exact .cons rfl (.cons rfl h)
  fun_induction readName atStart cs with
  | case1 => exact Or.inl (.refl [])
  | case2 atStart body complaint rest h => exact Or.inl (hescape h rfl)
  | case3 atStart body codePoint rest h d hd ih =>
    have hline := hescape h rfl
    rw [Read.rest_map]
    rcases ih with ih | ⟨tail, hread, htail⟩
    · exact Or.inl (hline.trans ih)
    · exact Or.inr ⟨tail, Read.map_eq_refused.2 hread, hline.trans htail⟩
  | case4 atStart body codePoint rest h hd => exact Or.inl (hescape h rfl)
  | case5 atStart cs hu => exact Or.inr ⟨cs, rfl, .refl _⟩
  | case6 atStart c cs hb hp ih =>
    have hc := isLineTerminator_of_part hp
    rw [Read.rest_map]
    rcases ih with ih | ⟨tail, hread, htail⟩
    · exact Or.inl (.cons hc ih)
    · exact Or.inr ⟨tail, Read.map_eq_refused.2 hread, .cons hc htail⟩
  | case7 => exact Or.inl (.refl _)

theorem Read.kind_ne_of_unnamed {α : Type} {f : α → TokenKind} {r : Read α}
    (hf : ∀ a, f a ≠ .invalid .identifierEscape)
    (hr : ∀ rest, r ≠ .refused .identifierEscape rest) :
    r.kind f ≠ .invalid .identifierEscape := by
  cases r with
  | done a rest => exact hf a
  | refused complaint rest =>
    intro h
    obtain rfl := TokenKind.invalid.inj h
    exact hr rest rfl

/-! ## Tokens at a cursor -/

namespace Cursor

/-- A cursor passes over whole line ends. -/
theorem Passes.cleanCut {k k' : Cursor} (h : Passes k k') : CleanCut k.rest k'.rest := by
  induction h with
  | refl k => exact .refl k.rest
  | @step k k' _ ih =>
    cases hrest : k.rest with
    | nil =>
      have hstep : k.step = k := by rw [Cursor.step, hrest]
      rwa [hstep, hrest] at ih
    | cons c cs =>
      have hcut := cleanCut_afterLineTerminator c cs
      rw [← rest_step hrest] at hcut
      exact hcut.trans ih

/-- Moving over characters of one line is passing them. -/
theorem Passes.of_inLine {k : Cursor} {rest : List Char} (h : InLine k.rest rest) :
    Passes k (k.advanceTo rest) := by
  generalize hcs : k.rest = cs at h
  induction h generalizing k with
  | refl cs =>
    rw [← hcs, advanceTo_self]
    exact .refl k
  | @cons c cs rest hc h ih =>
    have hmove : k.advance.advanceTo rest = k.advanceTo rest := by
      rw [← advanceTo_tail hcs, advanceTo_advanceTo (hcs ▸ List.suffix_cons c cs) h.cleanCut.suffix]
    exact .advance hcs hc (hmove ▸ ih (rest_advance hcs))

/-- A reader that stays on the line moves a cursor over characters of it. -/
theorem passes_read {α : Type} {m : Reader α} (hm : m.OnLine) (k : Cursor) :
    Passes k (k.read m).rest := by
  rw [read, Read.rest_mapRest]
  exact .of_inLine (hm k.rest)

theorem passes_readEscape (context : EscapeContext) (k : Cursor) :
    Passes k (k.readEscape context).rest := by
  cases hrest : k.rest with
  | nil =>
    simp only [readEscape, hrest]
    exact .refl k
  | cons c cs =>
    simp only [readEscape, hrest]
    split
    · rename_i hu
      subst hu
      rw [Read.rest_map, readPairedCodePoint_eq]
      exact .advance hrest rfl (passes_read onLine_readPairedCodePoint _)
    split
    · rename_i hc
      have hstep : k.step = k.advance.newline c := by simp only [step, hrest, if_pos hc]
      exact .step (hstep ▸ .refl _)
    · rename_i hc
      rw [read, Read.rest_mapRest, hrest]
      exact .of_inLine (hrest ▸ inLine_readEscape context (Bool.eq_false_iff.2 hc) cs)

theorem passes_readString (context : EscapeContext) {quote : Char}
    (hquote : isLineTerminator quote = false) (k : Cursor) :
    Passes k (k.readString context quote).rest := by
  fun_induction readString context quote k with
  | case1 k => exact .refl k
  | case2 k cs h => exact .advance h hquote (.refl _)
  | case3 k => exact .refl k
  | case4 k cs complaint k' hescape h _ _ =>
    have hpasses := passes_readEscape context k.advance
    rw [hescape] at hpasses
    exact .advance h rfl hpasses
  | case5 k cs units k' hescape h _ _ ih =>
    have hpasses := passes_readEscape context k.advance
    rw [hescape] at hpasses
    rw [Read.rest_map]
    exact .advance h rfl (hpasses.trans ih)
  | case6 k c cs h _ _ _ ih =>
    rw [Read.rest_map]
    exact .step ih

theorem passes_readTemplate (k : Cursor) : Passes k k.readTemplate.rest := by
  fun_induction readTemplate k with
  | case1 k => exact .refl k
  | case2 k cs h => exact .advance h rfl (.refl _)
  | case3 k c cs h _ hopen =>
    obtain ⟨rfl, hhead⟩ := hopen
    obtain ⟨rest, rfl⟩ := List.head?_eq_some_iff.1 hhead
    exact .advance h rfl (.advance (rest_advance h) rfl (.refl _))
  | case4 k cs escape h _ _ ih =>
    rw [Read.rest_map]
    exact .advance h rfl ((passes_readEscape .template k.advance).trans ih)
  | case5 k c cs h _ _ _ ih =>
    rw [Read.rest_map]
    exact .step ih

/-- How a token moves a cursor. -/
inductive Takes (k : Cursor) (l : Lexeme Cursor) : Prop where
  /-- Over characters of the line. -/
  | inLine (hline : InLine k.rest l.rest.rest) (hpasses : Passes k l.rest)
  /-- Over whole line ends and other characters. -/
  | lines (hkind : l.kind ≠ .invalid .identifierEscape) (hpasses : Passes k l.rest)
  /-- Over characters of the line, a backslash, and the character behind it, whatever that is. -/
  | backslash {tail : List Char} (hkind : l.kind = .invalid .identifierEscape)
      (hline : InLine k.rest ('\\' :: tail)) (hrest : l.rest = k.advanceTo (tail.drop 1))

/-- A token that starts no name passes whole line ends. -/
theorem takes_lexBehind (strict : Bool) (goal : Goal) (n : Nesting) {k : Cursor} {c : Char}
    {cs : List Char} (h : k.rest = c :: cs) (hc : isLineTerminator c = false) :
    Takes k (k.advance.lexBehind strict goal n c) := by
  have hread : ∀ {α : Type} {m : Reader α} (f : α → TokenKind), m.Local → m.OnLine →
      Takes k (lexRead n f (k.advance.read m)) := by
    intro α m f hlocal hm
    have hrest : (k.advance.read m).rest.rest = (m cs).rest := by
      rw [← Read.rest_mapRest Cursor.rest, mapRest_read hlocal, rest_advance h]
    refine .inLine ?_ (.advance h hc (passes_read hm _))
    rw [h, lexRead, hrest]
    exact .cons hc (hm cs)
  have htemplate : ∀ (closed opened : TemplatePart) (n : Nesting),
      Takes k (k.advance.lexTemplate closed opened n) := by
    intro closed opened n
    refine .lines ?_ (.advance h hc (passes_readTemplate _))
    rw [lexTemplate, ← Read.kind_mapRest _ Cursor.rest, mapRest_readTemplate]
    exact Read.kind_ne_of_unnamed (fun _ => nofun) (unnamed_readTemplate _)
  unfold lexBehind
  split
  · refine .lines ?_ (.advance h hc (passes_readString _ hc _))
    rw [lexRead, ← Read.kind_mapRest _ Cursor.rest, mapRest_readString]
    exact Read.kind_ne_of_unnamed (fun _ => nofun) (unnamed_readString _ c _)
  split
  · exact htemplate .whole .head n
  split
  · exact htemplate .tail .middle n.closeSubstitution
  split
  · exact hread _ local_readRegExp onLine_readRegExp
  split
  · exact hread _ (local_readNumber strict c) (onLine_readNumber strict c)
  · have hsuffix := lexPunctuator_suffix n c k.advance.rest
    have hline := inLine_lexPunctuator n hc k.advance.rest
    refine .inLine ?_ (.advance h hc (.of_inLine (hline.tail hsuffix)))
    rw [Lexeme.mapRest, rest_advanceTo hsuffix, h]
    rwa [rest_advance h] at hline ⊢

/-- Every token passes whole line ends, but for a name with a backslash that starts no escape. -/
theorem takes_lex (strict : Bool) (goal : Goal) (n : Nesting) {k : Cursor} {c : Char}
    {cs : List Char} (h : k.rest = c :: cs) (hc : isLineTerminator c = false) :
    Takes { k with lineStart := false } (k.lex strict goal n) := by
  simp only [lex, h]
  split
  · rw [readName_eq]
    rcases readName_cut true (c :: cs) with hline | ⟨tail, hread, hline⟩
    · refine .inLine ?_ ?_
      · rw [lexRead, read, Read.rest_mapRest, rest_advanceTo hline.cleanCut.suffix]
        exact hline
      · rw [lexRead, read, Read.rest_mapRest]
        exact .of_inLine hline
    · refine .backslash ?_ hline ?_
      · rw [lexRead, read, hread]
        rfl
      · rw [lexRead, read, hread]
        rfl
  · exact takes_lexBehind strict goal n rfl hc

end Cursor

end Ecma
