import Ecma.Engine
import Ecma.Value.Equality

/-!
# Conversions

Conversions of values to primitive values, texts, numbers and property keys. An object is asked for
its methods first; if it has none it has a text of its own, which for an array is made of the texts
of its elements. An array that is met again inside itself has the empty text there.
-/

namespace Ecma

namespace Value

/-- The text of a primitive value. -/
def toText : Value → Except Fault Text
  | string t => .ok t
  | symbol _ => .error .symbolAsText
  | v => .ok (.ofString v.display)

/-- The number of a primitive value, with a complaint about symbols. -/
def toNumber? : Value → Except Fault Double
  | symbol _ => .error .symbolAsNumber
  | v => .ok v.toNumber

/-- The property key of a primitive value. -/
def toPropertyKey : Value → Except Fault Text
  | symbol s => .ok s.key
  | v => v.toText

end Value

/-- The names of the conversion methods in the order in which they are tried. -/
def Hint.methods : Hint → List String
  | text => ["toString", "valueOf"]
  | number | none => ["valueOf", "toString"]

namespace Engine

variable {κ σ : Type}

/-! ## The text of an object without methods -/

/-- The text of a value, or a default for undefined. -/
def textOr (e : Engine κ σ) (default : Text) : Value → Action κ σ Text
  | .undefined => pure default
  | v => e.text v

/-- The name and the message of an error as one text; an empty part is left out. -/
def joinErrorParts (name message : Text) : Text :=
  if name.isEmpty then message
  else if message.isEmpty then name
  else name ++ Text.ofString ": " ++ message

/-- The text of an error. This is `error_to_string`. -/
def errorText (e : Engine κ σ) (o : ObjectId) : Action κ σ Text := do
  let name ← e.get o (.ofString "name") (.object o)
  let name ← e.textOr (.ofString "Error") name
  let message ← e.get o (.ofString "message") (.object o)
  let message ← e.textOr .empty message
  return joinErrorParts name message

/-- The text of an element; undefined and null have none. -/
def elementText (e : Engine κ σ) (v : Value) : Action κ σ Text :=
  if v.isNullish then pure .empty else e.text v

/-- The texts of `count` elements from index `i` on, after those already there, the last first. -/
def elementTexts (e : Engine κ σ) (o : ObjectId) (texts : List Text) (i : Nat) :
    Nat → Action κ σ (List Text)
  | 0 => pure texts
  | count + 1 => do
    let v ← e.get o (.ofNat i) (.object o)
    let t ← e.elementText v
    e.elementTexts o (t :: texts) (i + 1) count

/-- How many elements the length of an array stands for. -/
def elementCount : Value → Nat
  | .number x => x.wholePart
  | _ => 0

/-- The texts of the elements, with commas between them. This is `join_elements`. -/
def join (e : Engine κ σ) (o : ObjectId) : Action κ σ Text := do
  let length ← e.get o lengthKey (.object o)
  let texts ← e.elementTexts o [] 0 (elementCount length)
  return Text.joinWith (.ofString ",") texts.reverse

/-- The text of an array. While its elements are joined it counts as being joined, also if that
fails. -/
def arrayText (e : Engine κ σ) (o : ObjectId) : Action κ σ Text := do
  let r ← Action.realm
  if o ∈ r.joining then return .empty
  else do
    Action.modifyRealm fun r => { r with joining := o :: r.joining }
    let result ← (e.join o).attempt
    Action.modifyRealm fun r => { r with joining := r.joining.tail }
    Action.ofExcept result

/-- The text of a function. -/
def functionText (name : String) : Text :=
  .ofString ("function " ++ name ++ "() \x7b [native code] \x7d")

/-- The text that an object has without methods. This is `default_object_string`. -/
def defaultText (e : Engine κ σ) (o : ObjectId) : Action κ σ Text := do
  let data ← Action.read (·.object o)
  if data.kind = .error then e.errorText o
  else if data.elements.isSome then e.arrayText o
  else
    match data.callable with
    | some f => return functionText f.name
    | none => return .ofString "[object Object]"

/-! ## Conversions -/

/-- The first primitive value that the methods of an object give, if it has any of the methods. An
object whose methods give objects only has no primitive value. -/
def methodPrimitive (e : Engine κ σ) (o : ObjectId) (found : Bool) :
    List String → Action κ σ (Option Value)
  | [] => if found then Action.fail .noPrimitive else pure none
  | name :: names => do
    let method ← e.get o (.ofString name) (.object o)
    let r ← Action.realm
    if r.isCallable method then do
      let v ← e.call method (.object o) []
      if v.isObject then e.methodPrimitive o true names else return some v
    else e.methodPrimitive o found names

/-- The primitive value of a value. -/
def toPrimitive (e : Engine κ σ) (hint : Hint) : Value → Action κ σ Value
  | .object o => do
    match ← e.methodPrimitive o false hint.methods with
    | some v => return v
    | none => do
      let t ← e.defaultText o
      return .string t
  | v => pure v

/-- Converts to a text. This is `to_string`. -/
def toText (e : Engine κ σ) (v : Value) : Action κ σ Text := do
  let p ← e.toPrimitive .text v
  Action.ofExcept p.toText

/-- Converts to a number. This is `to_number_value`. -/
def toNumber (e : Engine κ σ) (v : Value) : Action κ σ Double := do
  let p ← e.toPrimitive .number v
  Action.ofExcept p.toNumber?

/-- Converts to a property key. -/
def toPropertyKey (e : Engine κ σ) (v : Value) : Action κ σ Text := do
  let p ← e.toPrimitive .text v
  Action.ofExcept p.toPropertyKey

/-- The value that takes part in a loose comparison with another one. Only an object that is
compared with a primitive value other than undefined and null is converted. -/
def comparand (e : Engine κ σ) (v other : Value) : Action κ σ Value :=
  if v.isObject && !other.isObject && !other.isNullish then e.toPrimitive .none v else pure v

/-- Compares loosely. This is `abstract_equality`. -/
def looselyEqual (e : Engine κ σ) (a b : Value) : Action κ σ Bool := do
  let x ← e.comparand a b
  let y ← e.comparand b a
  return Value.looselyEqual x y

end Engine

end Ecma
