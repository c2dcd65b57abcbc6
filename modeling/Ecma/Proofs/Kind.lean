import Ecma.Token.Scanner

/-!
# What is read as which kind of token

A reader yields a property if all that it reads has it (`Reader.Yields`). Numbers are read as
numerals and names as words, so what holds of every kind that may start with a character holds of
the token that does (`kind_lex_of`). Only the end of the source is read as such (`kind_lex_ne`).
-/

namespace Ecma

namespace Reader

variable {α β : Type} {P : β → Prop}

/-- All that a reader reads has a property. -/
def Yields (P : α → Prop) (m : Reader α) : Prop := ∀ cs a rest, m cs = .done a rest → P a

theorem yields_pure {b : β} (h : P b) : Yields P (Pure.pure b : Reader β) := by
  intro cs a rest he
  cases he
  exact h

theorem yields_refuse (c : Complaint) : Yields P (refuse c : Reader β) := by
  intro cs a rest he
  cases he

theorem yields_bind {Q : α → Prop} {m : Reader α} {f : α → Reader β} (hm : Yields Q m)
    (h : ∀ a, Q a → Yields P (f a)) : Yields P (m >>= f) := by
  intro cs b rest he
  replace he : bind m f cs = .done b rest := he
  unfold bind at he
  split at he
  · rename_i a rest' heq
    exact h a (hm cs a rest' heq) _ _ _ he
  · cases he

theorem yields_mono {Q : β → Prop} {m : Reader β} (hm : Yields Q m) (h : ∀ b, Q b → P b) :
    Yields P m := fun cs b rest he => h b (hm cs b rest he)

theorem yields_after {m : Reader α} {f : α → Reader β} (h : ∀ a, Yields P (f a)) :
    Yields P (m >>= f) := yields_bind (Q := fun _ => True) (fun _ _ _ _ => trivial) fun a _ => h a

theorem yields_ite {c : Prop} [Decidable c] {m n : Reader β} (hm : Yields P m) (hn : Yields P n) :
    Yields P (if c then m else n) := by
  split <;> assumption

end Reader

/-- The kinds of numbers. -/
def TokenKind.IsNumeral : TokenKind → Prop
  | number _ | legacyOctal _ | bigInt _ => True
  | _ => False

/-- The kinds of numbers in all but the old octal notation. -/
def TokenKind.IsModernNumeral : TokenKind → Prop
  | number _ | bigInt _ => True
  | _ => False

/-- The kinds of names. -/
def TokenKind.IsWord : TokenKind → Prop
  | identifier _ | keyword _ | boolean _ | null => True
  | _ => False

section Numbers

open Reader

theorem TokenKind.IsModernNumeral.isNumeral {k : TokenKind} (h : k.IsModernNumeral) :
    k.IsNumeral := by
  cases k
  case number => trivial
  case bigInt => trivial
  all_goals exact h.elim

theorem decimalToken_yields (literal : List Char) :
    Yields TokenKind.IsModernNumeral (decimalToken literal) := by
  unfold decimalToken
  split
  · exact yields_pure trivial
  · exact yields_refuse _

theorem finishDecimal_yields (isWhole : Bool) (mantissa : List Char) :
    Yields TokenKind.IsModernNumeral (finishDecimal isWhole mantissa) := by
  refine yields_after fun exponent => yields_after fun big => ?_
  refine yields_ite (yields_ite ?_ (yields_refuse _)) (decimalToken_yields _)
  exact yields_after fun _ => yields_pure trivial

theorem readDecimalLiteral_yields (first : Char) :
    Yields TokenKind.IsModernNumeral (readDecimalLiteral first) := by
  refine yields_ite (yields_after fun _ => finishDecimal_yields _ _) ?_
  refine yields_after fun whole => yields_after fun point => ?_
  exact yields_ite (yields_after fun _ => finishDecimal_yields _ _) (finishDecimal_yields _ _)

theorem readRadixLiteral_yields (mark : RadixMark) :
    Yields TokenKind.IsModernNumeral (readRadixLiteral mark) := by
  refine yields_after fun _ => yields_after fun digit => yields_ite ?_ (yields_refuse _)
  refine yields_after fun ds => yields_after fun big => ?_
  exact yields_ite (yields_pure trivial) (yields_pure trivial)

theorem readLegacyNumber_yields (strict : Bool) :
    Yields TokenKind.IsNumeral (readLegacyNumber strict) := by
  refine yields_after fun _ => yields_ite (yields_refuse _) ?_
  refine yields_after fun ds => yields_ite (yields_refuse _) ?_
  refine yields_after fun big => yields_ite (yields_refuse _) ?_
  refine yields_ite (yields_pure trivial) ?_
  refine yields_after fun _ => yields_after fun _ => ?_
  exact yields_mono (decimalToken_yields _) fun _ => TokenKind.IsModernNumeral.isNumeral

/-- What a number is read as has every property that modern numerals have and that numbers with a
leading zero have where they are read. -/
theorem readNumberBody_yields_of {P : TokenKind → Prop} {strict : Bool}
    (hmodern : ∀ k, k.IsModernNumeral → P k) (hlegacy : Yields P (readLegacyNumber strict))
    (first : Char) : Yields P (readNumberBody strict first) := by
  intro cs kind rest he
  unfold readNumberBody at he
  split at he
  · split at he
    · exact hmodern kind (readDecimalLiteral_yields first _ _ _ he)
    · split at he
      · exact hmodern kind (readRadixLiteral_yields _ _ _ _ he)
      · split at he
        · exact hlegacy _ _ _ he
        · exact hmodern kind (readDecimalLiteral_yields first _ _ _ he)
  · exact hmodern kind (readDecimalLiteral_yields first _ _ _ he)

theorem readNumberBody_yields (strict : Bool) (first : Char) :
    Yields TokenKind.IsNumeral (readNumberBody strict first) :=
  readNumberBody_yields_of (fun _ => TokenKind.IsModernNumeral.isNumeral)
    (readLegacyNumber_yields strict) first

theorem readNumber_yields (strict : Bool) (first : Char) :
    Yields TokenKind.IsNumeral (readNumber strict first) := by
  refine yields_bind (readNumberBody_yields strict first) fun kind hk => ?_
  exact yields_after fun _ => yields_ite (yields_refuse _) (yields_pure hk)

end Numbers

theorem kindOfName_isWord (name : List Char) : (kindOfName name).IsWord := by
  unfold kindOfName
  dsimp only
  repeat' split
  all_goals trivial

/-- What holds of invalid tokens and of all that can be read holds of the token of an outcome. -/
theorem Read.kind_of {α : Type} {P : TokenKind → Prop} {f : α → TokenKind} {r : Read α}
    (hinvalid : ∀ complaint, P (.invalid complaint)) (h : ∀ a rest, r = .done a rest → P (f a)) :
    P (r.kind f) := by
  cases r with
  | done a rest => exact h a rest rfl
  | refused complaint rest => exact hinvalid complaint

theorem TokenKind.IsNumeral.ne_endOfSource {k : TokenKind} (h : k.IsNumeral) :
    k ≠ .endOfSource := by
  rintro rfl
  exact h

theorem TokenKind.IsWord.ne_endOfSource {k : TokenKind} (h : k.IsWord) : k ≠ .endOfSource := by
  rintro rfl
  exact h

/-- What holds of every kind of token that may start with a character holds of the token that does
start with it. -/
theorem kind_lex_of {P : TokenKind → Prop} {strict : Bool} {goal : Goal} {n : Nesting} {c : Char}
    {cs : List Char} (hinvalid : ∀ complaint, P (.invalid complaint))
    (hword : ∀ k : TokenKind, k.IsWord → P k) (hstring : ∀ t, P (.string t))
    (htemplate : ∀ part cooked raw, P (.template part cooked raw))
    (hregExp : ∀ pattern flags, P (.regExp pattern flags))
    (hnumber : ∀ k rest, readNumber strict c cs = .done k rest → P k)
    (hpunctuator : ∀ p rest, Punctuator.readFrom? c cs = some (p, rest) → P (.punctuator p)) :
    P (lex strict goal n (c :: cs)).kind := by
  unfold lex
  dsimp only
  split
  · exact Read.kind_of hinvalid fun name _ _ => hword _ (kindOfName_isWord name)
  split
  · exact Read.kind_of hinvalid fun _ _ _ => hstring _
  split
  · exact Read.kind_of hinvalid fun _ _ _ => htemplate _ _ _
  split
  · exact Read.kind_of hinvalid fun _ _ _ => htemplate _ _ _
  split
  · exact Read.kind_of hinvalid fun _ _ _ => hregExp _ _
  split
  · exact Read.kind_of hinvalid fun k rest hr => hnumber k rest hr
  · unfold lexPunctuator
    split
    · rename_i p rest hp
      exact hpunctuator p rest hp
    · exact hinvalid _

theorem kind_lex_ne (strict : Bool) (goal : Goal) (n : Nesting) (c : Char) (cs : List Char) :
    (lex strict goal n (c :: cs)).kind ≠ .endOfSource := by
  refine kind_lex_of (P := (· ≠ .endOfSource)) (fun _ => nofun)
    (fun _ => TokenKind.IsWord.ne_endOfSource) (fun _ => nofun) (fun _ _ _ => nofun)
    (fun _ _ => nofun) (fun k rest hr => ?_) (fun _ _ _ => nofun)
  exact (readNumber_yields strict c cs k rest hr).ne_endOfSource

end Ecma
