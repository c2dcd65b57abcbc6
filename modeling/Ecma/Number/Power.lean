/-!
# Powers of two and of ten

The scales of binary and of decimal numbers.
-/

namespace Ecma

/-- The power of two with the given exponent. -/
def pow2 (n : Nat) : Nat := Nat.pow 2 n

/-- The power of ten with the given exponent. -/
def pow10 (n : Nat) : Nat := Nat.pow 10 n

@[simp] theorem pow2_zero : pow2 0 = 1 := rfl

end Ecma
