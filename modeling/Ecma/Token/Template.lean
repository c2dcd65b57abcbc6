import Ecma.Token.Escape

/-!
# Template parts

The characters of a template from an opening backtick, or from the brace that closes a substitution,
to the closing backtick or the opening of the next substitution. Every part has a raw text, its
source with line ends normalised, and, unless an escape in it is malformed, a cooked value.
-/

namespace Ecma

/-- Replaces each carriage return, together with a line feed right behind it, by a line feed. This
is `normalize_line_endings`. -/
def normalizeLines : List Char → List Char
  | [] => []
  | '\r' :: '\n' :: cs => '\n' :: normalizeLines cs
  | c :: cs => (if c = '\r' then '\n' else c) :: normalizeLines cs

/-- What was read of a template part. -/
structure TemplateBody where
  /-- The units it stands for, if every escape is well formed. -/
  cooked : Option (List UInt16)
  /-- Its source text with line ends normalised. -/
  raw : List Char
  /-- Whether a backtick ended it, and not the opening of a substitution. -/
  closed : Bool
deriving Repr

namespace TemplateBody

/-- The empty part. -/
def nothing (closed : Bool) : TemplateBody := ⟨some [], [], closed⟩

/-- The part with a character in front. -/
def cons (c : Char) (b : TemplateBody) : TemplateBody :=
  { b with cooked := b.cooked.map (unitsOfChar c ++ ·), raw := c :: b.raw }

/-- The part with an escape in front: its outcome, and its source behind the backslash. -/
def consEscape {ρ : Type} (escape : Read (List UInt16) ρ) (source : List Char)
    (b : TemplateBody) : TemplateBody :=
  { b with
    cooked := match escape with
      | .done units _ => b.cooked.map (units ++ ·)
      | .refused _ _ => none
    raw := '\\' :: normalizeLines source ++ b.raw }

@[simp] theorem consEscape_mapRest {ρ σ : Type} (g : ρ → σ) (escape : Read (List UInt16) ρ) :
    consEscape (escape.mapRest g) = consEscape escape := by
  cases escape <;> rfl

end TemplateBody

/-- Reads a template part to its end. A malformed escape does not stop it. -/
def readTemplate : Reader TemplateBody
  | [] => .refused .unterminatedTemplate []
  | c :: cs =>
    if c = '`' then .done (.nothing true) cs
    else if c = '\\' then
      let escape := readEscape .template cs
      (readTemplate escape.rest).map (.consEscape escape (textBefore cs escape.rest))
    else if c = '\r' then
      (readTemplate (afterLineTerminator c cs)).map (.cons '\n')
    else if c = '$' ∧ cs.head? = some '{' then .done (.nothing false) (cs.drop 1)
    else (readTemplate cs).map (.cons c)
termination_by cs => cs.length
decreasing_by
  · have := (local_readEscape .template cs).length_le
    simp only [List.length_cons]
    omega
  · have := (afterLineTerminator_suffix c cs).length_le
    simp only [List.length_cons]
    omega
  · simp

/-- A template part consumes characters from the front only. -/
theorem local_readTemplate : Reader.Local readTemplate := by
  intro cs
  fun_induction readTemplate cs with
  | case1 => exact List.suffix_rfl
  | case2 => exact List.suffix_cons ..
  | case3 cs h escape ih =>
    rw [Read.rest_map]
    exact ih.trans ((local_readEscape .template cs).trans (List.suffix_cons ..))
  | case4 cs h1 h2 ih =>
    rw [Read.rest_map]
    exact ih.trans ((afterLineTerminator_suffix _ cs).trans (List.suffix_cons ..))
  | case5 => exact (List.drop_suffix ..).trans (List.suffix_cons ..)
  | case6 _ _ _ _ _ _ ih =>
    rw [Read.rest_map]
    exact ih.trans (List.suffix_cons ..)

namespace Cursor

/-- Reads a template part to its end. A malformed escape does not stop it. This is
`read_template_chars`. -/
def readTemplate (k : Cursor) : Read TemplateBody Cursor :=
  match _h : k.rest with
  | [] => .refused .unterminatedTemplate k
  | c :: cs =>
    if c = '`' then .done (.nothing true) k.advance
    else if c = '$' ∧ cs.head? = some '{' then .done (.nothing false) k.advance.advance
    else if c = '\\' then
      let escape := k.advance.readEscape .template
      escape.rest.readTemplate.map (.consEscape escape (textBefore cs escape.rest.rest))
    else k.step.readTemplate.map (.cons (if c = '\r' then '\n' else c))
termination_by k.rest.length
decreasing_by
  · have hsuffix := rest_readEscape_suffix .template k.advance
    rw [rest_advance _h] at hsuffix
    rw [_h]
    exact Nat.lt_succ_of_le hsuffix.length_le
  · rw [_h]
    exact Nat.lt_succ_of_le (rest_step_suffix _h).length_le

/-- From a cursor, a template part is read as its text says. -/
theorem mapRest_readTemplate (k : Cursor) :
    k.readTemplate.mapRest rest = Ecma.readTemplate k.rest := by
  fun_induction readTemplate k with
  | case1 k h => rw [h, Ecma.readTemplate, Read.mapRest_refused, h]
  | case2 k cs h => rw [h, Ecma.readTemplate, if_pos rfl, Read.mapRest_done, rest_advance h]
  | case3 k c cs h hq hopen =>
    obtain ⟨rfl, hhead⟩ := hopen
    obtain ⟨rest, rfl⟩ := List.head?_eq_some_iff.1 hhead
    rw [h, Ecma.readTemplate, if_neg hq, if_neg (by decide), if_neg (by decide), if_pos ⟨rfl, rfl⟩,
      Read.mapRest_done, rest_advance (rest_advance h)]
    rfl
  | case4 k cs escape h hq hopen ih =>
    have htext := mapRest_readEscape .template k.advance
    rw [rest_advance h] at htext
    rw [h, Ecma.readTemplate, if_neg hq, if_pos rfl, Read.mapRest_map, ih]
    simp only [← htext, Read.rest_mapRest, TemplateBody.consEscape_mapRest]
    rfl
  | case5 k c cs h hq hopen hb ih =>
    rw [h, Ecma.readTemplate, if_neg hq, if_neg hb, Read.mapRest_map, ih, rest_step h]
    split
    · rfl
    · rename_i hreturn
      rw [afterLineTerminator_eq_self hreturn]

end Cursor

end Ecma
