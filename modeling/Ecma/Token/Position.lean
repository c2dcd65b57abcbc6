/-!
# Positions in the source

A position counts lines from one, columns in code points from zero and offsets in UTF-8 bytes. The
lines and the columns are counted in 32 bits: behind the largest number that these hold, the count
goes on from zero.
-/

namespace Ecma

/-- The number that a counter of 32 bits shows. -/
instance counterToNat : Coe UInt32 Nat := ⟨UInt32.toNat⟩

/-- What a counter of 32 bits shows when a number of things were counted. -/
instance counterOfNat : Coe Nat UInt32 := ⟨UInt32.ofNat⟩

/-- A place in the source. -/
structure Position where
  /-- The line, from one. -/
  line : UInt32
  /-- The number of code points before it on the line. -/
  column : UInt32
  /-- The number of bytes before it in the source. -/
  offset : Nat
deriving DecidableEq, Repr

namespace Position

/-- The start of the source. -/
def start : Position := ⟨1, 0, 0⟩

/-- The position behind a character that stays on the line. -/
def behindChar (p : Position) (c : Char) : Position := ⟨p.line, p.column + 1, p.offset + c.utf8Size⟩

/-- The start of the next line, behind the characters that end the line. -/
def newLine (p : Position) : Position := ⟨p.line + 1, 0, p.offset⟩

end Position

end Ecma
