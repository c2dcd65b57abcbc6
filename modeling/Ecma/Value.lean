import Ecma.Number.Numeric
import Ecma.Number.Positional
import Ecma.Text.Index

/-!
# Values

The values of the language. An object value is only a handle: the number of the object's cell in the
heap of a realm, which may be empty or hold another object by now.
-/

namespace Ecma

/-- A handle to an object: the number of its cell. -/
structure ObjectId where
  /-- The cell number. -/
  index : Nat
deriving DecidableEq, Repr, Inhabited

/-- A symbol. Symbols are the same exactly if their numbers are. -/
structure Symbol where
  /-- The number that no other symbol of the realm has. It is a plain number where the counter of
  `new_symbol` has 64 bits, more than a run can use up. -/
  id : Nat
  /-- The description, which says nothing about identity. -/
  description : Option Text
deriving DecidableEq, Repr

namespace Symbol

/-- Whether two symbols are the same. -/
def same (a b : Symbol) : Bool := a.id == b.id

/-- The property key of a symbol. Its number keeps apart symbols with the same description. This is
`to_property_key`. -/
def key (s : Symbol) : Text :=
  Text.ofString "Symbol(" ++ s.description.getD .empty ++ Text.ofString ")#" ++ Text.ofNat s.id

end Symbol

/-- A value of the language. -/
inductive Value where
  | undefined
  | null
  | boolean (b : Bool)
  | number (x : Double)
  | string (t : Text)
  | symbol (s : Symbol)
  | object (o : ObjectId)
deriving DecidableEq, Repr, Inhabited

namespace Value

/-- The text of a character string, as a value. -/
def ofString (s : String) : Value := string (.ofString s)

/-- A natural number, as a value. -/
def ofNat (n : Nat) : Value := number (.ofNat n)

/-- The values that have a name of their own: the truth values, zero, the three values that are no
finite numbers, and the empty text. -/
def constants : List Value :=
  [boolean true, boolean false, number .zero, number .nan, number .infinity,
    number .negativeInfinity, string .empty]

/-- Whether the value is an object. -/
def isObject : Value → Bool
  | object _ => true
  | _ => false

/-- Whether the value is undefined or null. -/
def isNullish : Value → Bool
  | undefined | null => true
  | _ => false

/-- Whether the value is a number that is none. -/
def isNaN : Value → Bool
  | number x => x.isNaN
  | _ => false

/-- The text of a value in messages. -/
def display : Value → String
  | undefined => "undefined"
  | null => "null"
  | boolean b => if b then "true" else "false"
  | number x => x.display
  | string t => t.display
  | symbol s => "Symbol(" ++ (s.description.map Text.display).getD "" ++ ")"
  | object _ => "[object Object]"

/-- The truth value of a value. This is `to_boolean`. -/
def truthy : Value → Bool
  | undefined | null => false
  | boolean b => b
  | number x => !x.isZero && !x.isNaN
  | string t => !t.isEmpty
  | symbol _ | object _ => true

/-- The number of a primitive value. Symbols and objects have none. -/
def toNumber : Value → Double
  | undefined => .nan
  | null => .zero
  | boolean b => if b then .one else .zero
  | number x => x
  | string t => numberOfText t
  | symbol _ | object _ => .nan

end Value

end Ecma
