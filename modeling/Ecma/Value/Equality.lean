import Ecma.Value

/-!
# Equality of values

Strict equality never converts, and the two identities differ from it only on numbers. Loose
equality of primitive values converts one step at a time; after two steps it gives up.
-/

namespace Ecma.Value

/-- Equality without conversion. This is `strict_equality`. -/
def strictEqual : Value → Value → Bool
  | undefined, undefined => true
  | null, null => true
  | boolean a, boolean b => a == b
  | number a, number b => a.equal b
  | string a, string b => a == b
  | symbol a, symbol b => a.same b
  | object a, object b => a == b
  | _, _ => false

/-- Identity of values. -/
def sameValue : Value → Value → Bool
  | number a, number b => a.sameValue b
  | a, b => strictEqual a b

/-- Identity of values, with the two zeros taken as one. -/
def sameValueZero : Value → Value → Bool
  | number a, number b => a.sameValueZero b
  | a, b => strictEqual a b

/-- Whether two values are of the same type. -/
def sameType : Value → Value → Bool
  | undefined, undefined | null, null | boolean _, boolean _ | number _, number _
  | string _, string _ | symbol _, symbol _ | object _, object _ => true
  | _, _ => false

/-- Loose equality of primitive values with at most `steps` conversions. -/
def looselyEqualWithin : Nat → Value → Value → Bool
  | steps, a, b =>
    if sameType a b then strictEqual a b
    else if a.isNullish && b.isNullish then true
    else
      match steps with
      | 0 => false
      | n + 1 =>
        match a, b with
        | number x, string t => looselyEqualWithin n (number x) (number (numberOfText t))
        | string t, number y => looselyEqualWithin n (number (numberOfText t)) (number y)
        | boolean c, b => looselyEqualWithin n (number (boolean c).toNumber) b
        | a, boolean c => looselyEqualWithin n a (number (boolean c).toNumber)
        | _, _ => false

/-- How many conversions loose equality allows. -/
def conversionLimit : Nat := 2

/-- Loose equality of primitive values after `depth` conversions have been made already. This is
`loose_primitive_equality`. -/
def looselyEqualAt (depth : Nat) (a b : Value) : Bool :=
  looselyEqualWithin (conversionLimit - depth) a b

/-- Loose equality of primitive values. -/
def looselyEqual (a b : Value) : Bool := looselyEqualAt 0 a b

end Ecma.Value
