import Ecma.Token.Escape

/-!
# String literals

The body of a string literal, from behind its opening quote to its closing one. Line feeds and
carriage returns end it too early; the other two line terminators may stand in it.
-/

namespace Ecma

/-- The context of escapes in the string literals of strict or sloppy code. -/
def EscapeContext.ofStrict (strict : Bool) : EscapeContext := if strict then .strict else .sloppy

/-- The units of a string literal up to its closing quote. -/
def readString (context : EscapeContext) (quote : Char) : Reader (List UInt16)
  | [] => .refused .unterminatedString []
  | c :: cs =>
    if c = quote then .done [] cs
    else if c = '\n' ∨ c = '\r' then .refused .unterminatedString (c :: cs)
    else if c = '\\' then
      match _h : readEscape context cs with
      | .refused complaint rest => .refused complaint rest
      | .done units rest => (readString context quote rest).map (units ++ ·)
    else (readString context quote cs).map (unitsOfChar c ++ ·)
termination_by cs => cs.length
decreasing_by
  · have := (local_readEscape context cs).length_le
    simp only [_h, Read.rest_done] at this
    simp only [List.length_cons]
    omega
  · simp

/-- A string literal consumes characters from the front only. -/
theorem local_readString (context : EscapeContext) (quote : Char) :
    Reader.Local (readString context quote) := by
  intro cs
  fun_induction readString context quote cs with
  | case1 => exact List.suffix_rfl
  | case2 => exact List.suffix_cons ..
  | case3 => exact List.suffix_rfl
  | case4 cs complaint rest h _ _ =>
    have := local_readEscape context cs
    rw [h] at this
    exact this.trans (List.suffix_cons ..)
  | case5 cs units rest h _ _ ih =>
    have := local_readEscape context cs
    rw [h] at this
    rw [Read.rest_map]
    exact ih.trans (this.trans (List.suffix_cons ..))
  | case6 c cs hq hn hb ih =>
    rw [Read.rest_map]
    exact ih.trans (List.suffix_cons ..)

namespace Cursor

/-- The units of a string literal up to its closing quote. This is `read_string`. -/
def readString (context : EscapeContext) (quote : Char) (k : Cursor) : Read (List UInt16) Cursor :=
  match _hrest : k.rest with
  | [] => .refused .unterminatedString k
  | c :: _ =>
    if c = quote then .done [] k.advance
    else if c = '\n' ∨ c = '\r' then .refused .unterminatedString k
    else if c = '\\' then
      match _h : k.advance.readEscape context with
      | .refused complaint k' => .refused complaint k'
      | .done units k' => (k'.readString context quote).map (units ++ ·)
    else (k.step.readString context quote).map (unitsOfChar c ++ ·)
termination_by k.rest.length
decreasing_by
  · have hsuffix := rest_readEscape_suffix context k.advance
    rw [_h, Read.rest_done, rest_advance _hrest] at hsuffix
    rw [_hrest]
    exact Nat.lt_succ_of_le hsuffix.length_le
  · rw [_hrest]
    exact Nat.lt_succ_of_le (rest_step_suffix _hrest).length_le

/-- From a cursor, a string literal is read as its text says. -/
theorem mapRest_readString (context : EscapeContext) (quote : Char) (k : Cursor) :
    (k.readString context quote).mapRest rest = Ecma.readString context quote k.rest := by
  fun_induction readString context quote k with
  | case1 k h => rw [h, Ecma.readString, Read.mapRest_refused, h]
  | case2 k cs h =>
    rw [h, Ecma.readString, if_pos rfl, Read.mapRest_done, rest_advance h]
  | case3 k c cs h hq hc =>
    rw [h, Ecma.readString, if_neg hq, if_pos hc, Read.mapRest_refused, h]
  | case4 k cs complaint k' hescape h hq hc =>
    have htext := mapRest_readEscape context k.advance
    rw [hescape, rest_advance h, Read.mapRest_refused] at htext
    rw [h, Ecma.readString, if_neg hq, if_neg hc, if_pos rfl, Read.mapRest_refused]
    split
    · rename_i hread
      rw [← htext] at hread
      exact hread
    · rename_i hread
      rw [← htext] at hread
      cases hread
  | case5 k cs units k' hescape h hq hc ih =>
    have htext := mapRest_readEscape context k.advance
    rw [hescape, rest_advance h, Read.mapRest_done] at htext
    rw [h, Ecma.readString, if_neg hq, if_neg hc, if_pos rfl, Read.mapRest_map, ih]
    split
    · rename_i hread
      rw [← htext] at hread
      cases hread
    · rename_i hread
      rw [← htext] at hread
      cases hread
      rfl
  | case6 k c cs h hq hc hb ih =>
    have hreturn : c ≠ '\r' := fun hr => hc (Or.inr hr)
    rw [h, Ecma.readString, if_neg hq, if_neg hc, if_neg hb, Read.mapRest_map, ih, rest_step h,
      afterLineTerminator_eq_self hreturn]

end Cursor

end Ecma
