import Ecma.Token.Punctuator

/-!
# Punctuators and their spellings

What a punctuator takes from the source is its spelling: `Punctuator.readFrom?_spelling` cuts the
source into the spelling of the punctuator that was read and what is left behind it. Conversely, the
spelling of each punctuator is read as that one, and no longer one, where a space follows it.
-/

namespace Ecma.Punctuator

/-- The source is the spelling of what was read, and what is left. -/
def Spells (source : List Char) (r : Punctuator × List Char) : Prop :=
  source = r.1.spelling.toList ++ r.2

theorem spells_plain {p : Punctuator} {w : List Char} (hp : p.spelling.toList = w)
    (cs : List Char) : Spells (w ++ cs) (p, cs) := by
  rw [Spells, hp]

theorem spells_orAssign {plain assigned : Punctuator} {w : List Char}
    (hplain : plain.spelling.toList = w) (hassigned : assigned.spelling.toList = w ++ ['='])
    (cs : List Char) : Spells (w ++ cs) (orAssign plain assigned cs) := by
  unfold orAssign
  split
  · rw [Spells, hassigned, List.append_assoc, List.singleton_append]
  · exact spells_plain hplain cs

theorem spells_readGreater (cs : List Char) : Spells ('>' :: cs) (readGreater cs) := by
  unfold readGreater
  split
  · exact spells_orAssign (w := ['>', '>', '>']) rfl rfl _
  · exact spells_orAssign (w := ['>', '>']) rfl rfl _
  · exact spells_orAssign (w := ['>']) rfl rfl _

theorem spells_readQuestion (cs : List Char) : Spells ('?' :: cs) (readQuestion cs) := by
  unfold readQuestion
  split
  · exact spells_orAssign (w := ['?', '?']) rfl rfl _
  · split
    · exact spells_plain (w := ['?']) rfl _
    · exact spells_plain (w := ['?', '.']) rfl _
  · exact spells_plain (w := ['?']) rfl _

theorem spells_readEqual (cs : List Char) : Spells ('=' :: cs) (readEqual cs) := by
  unfold readEqual
  split
  · exact spells_orAssign (w := ['=', '=']) rfl rfl _
  · exact spells_plain (w := ['=', '>']) rfl _
  · exact spells_plain (w := ['=']) rfl _

theorem spells_readDot (cs : List Char) : Spells ('.' :: cs) (readDot cs) := by
  unfold readDot
  split
  · exact spells_plain (w := ['.', '.', '.']) rfl _
  · exact spells_plain (w := ['.']) rfl _

theorem spells_readBang (cs : List Char) : Spells ('!' :: cs) (readBang cs) := by
  unfold readBang
  split
  · exact spells_orAssign (w := ['!', '=']) rfl rfl _
  · exact spells_plain (w := ['!']) rfl _

theorem spells_readDoubled {c : Char} {single singleAssign double doubleAssign : Punctuator}
    (hs : single.spelling.toList = [c]) (hsa : singleAssign.spelling.toList = [c, '='])
    (hd : double.spelling.toList = [c, c]) (hda : doubleAssign.spelling.toList = [c, c, '='])
    (cs : List Char) :
    Spells (c :: cs) (readDoubled c single singleAssign double doubleAssign cs) := by
  unfold readDoubled
  split
  · split
    · rename_i hc
      rw [hc]
      exact spells_orAssign hd hda _
    · exact spells_orAssign hs hsa _
  · exact spells_plain hs []

theorem spells_readSign {c : Char} {single singleAssign double : Punctuator}
    (hs : single.spelling.toList = [c]) (hsa : singleAssign.spelling.toList = [c, '='])
    (hd : double.spelling.toList = [c, c]) (cs : List Char) :
    Spells (c :: cs) (readSign c single singleAssign double cs) := by
  unfold readSign
  split
  · split
    · rename_i hc
      rw [hc]
      exact spells_plain hd _
    · exact spells_orAssign hs hsa _
  · exact spells_plain hs []

/-- A punctuator takes its spelling from the source. -/
theorem readFrom?_spelling {c : Char} {cs rest : List Char} {p : Punctuator}
    (h : readFrom? c cs = some (p, rest)) : c :: cs = p.spelling.toList ++ rest := by
  have hread : ∀ {r : Punctuator × List Char}, Spells (c :: cs) r → some r = some (p, rest) →
      c :: cs = p.spelling.toList ++ rest := by
    rintro r hr he
    cases he
    exact hr
  unfold readFrom? at h
  split at h
  case h_11 => exact hread (spells_readDot cs) h
  case h_12 => exact hread (spells_readQuestion cs) h
  case h_13 => exact hread (spells_readDoubled rfl rfl rfl rfl cs) h
  case h_14 => exact hread (spells_readGreater cs) h
  case h_15 => exact hread (spells_readEqual cs) h
  case h_16 => exact hread (spells_readBang cs) h
  case h_17 => exact hread (spells_readSign rfl rfl rfl cs) h
  case h_18 => exact hread (spells_readSign rfl rfl rfl cs) h
  case h_19 => exact hread (spells_readDoubled rfl rfl rfl rfl cs) h
  case h_20 => exact hread (spells_orAssign (w := ['/']) rfl rfl cs) h
  case h_21 => exact hread (spells_orAssign (w := ['%']) rfl rfl cs) h
  case h_22 => exact hread (spells_readDoubled rfl rfl rfl rfl cs) h
  case h_23 => exact hread (spells_readDoubled rfl rfl rfl rfl cs) h
  case h_24 => exact hread (spells_orAssign (w := ['^']) rfl rfl cs) h
  case h_25 => cases h
  -- the punctuators of one character
  all_goals exact hread (spells_plain (w := [_]) rfl cs) h

/-- The spelling of a punctuator is read as that punctuator where a space follows it. -/
theorem readFrom?_space (p : Punctuator) (tail : List Char) :
    ∃ c cs, p.spelling.toList = c :: cs ∧
      readFrom? c (cs ++ ' ' :: tail) = some (p, ' ' :: tail) := by
  cases p <;> exact ⟨_, _, rfl, rfl⟩

end Ecma.Punctuator
