import Ecma.Token.Name

/-!
# Regular expression literals

The body of a regular expression literal, from behind its opening slash to its closing one, and its
flags. Inside a class, between square brackets, a slash does not close the body.
-/

namespace Ecma

/-- The body of a regular expression up to its closing slash. -/
def readPattern (inClass : Bool) : Reader (List Char)
  | [] => .refused .unterminatedRegExp []
  | c :: cs =>
    if isLineTerminator c then .refused .unterminatedRegExp (c :: cs)
    else if c = '/' ∧ !inClass then .done [] cs
    else if c = '\\' then
      match cs with
      | [] => .refused .unterminatedRegExp []
      | d :: rest =>
        if isLineTerminator d then .refused .unterminatedRegExp (d :: rest)
        else (readPattern inClass rest).map (c :: d :: ·)
    else
      let inClass := if c = '[' then true else if c = ']' then false else inClass
      (readPattern inClass cs).map (c :: ·)

/-- The body and the flags of a regular expression. This is `read_regex`. -/
def readRegExp : Reader (List Char × List Char) := fun cs =>
  match readPattern false cs with
  | .refused complaint rest => .refused complaint rest
  | .done pattern rest =>
    .done (pattern, rest.takeWhile isIdentifierContinue) (rest.dropWhile isIdentifierContinue)

theorem local_readPattern (inClass : Bool) : Reader.Local (readPattern inClass) := by
  intro cs
  fun_induction readPattern inClass cs with
  | case1 => exact List.suffix_rfl
  | case2 => exact List.suffix_rfl
  | case3 => exact List.suffix_cons ..
  | case4 => exact List.nil_suffix
  | case5 => exact List.suffix_cons ..
  | case6 inClass d rest _ _ _ ih =>
    rw [Read.rest_map]
    exact ih.trans ((List.suffix_cons ..).trans (List.suffix_cons ..))
  | case7 inClass c cs _ _ _ _ ih =>
    rw [Read.rest_map]
    exact ih.trans (List.suffix_cons ..)

/-- A regular expression consumes characters from the front only. -/
theorem local_readRegExp : Reader.Local readRegExp := by
  intro cs
  have h := local_readPattern false cs
  unfold readRegExp
  split
  · rename_i complaint rest heq
    rw [heq] at h
    exact h
  · rename_i pattern rest heq
    rw [heq] at h
    exact (List.dropWhile_suffix _).trans h

end Ecma
