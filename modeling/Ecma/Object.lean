import Ecma.Fault
import Ecma.Property
import Ecma.Scope

/-!
# Objects

An object has properties in insertion order, a prototype, hidden slots, and, depending on what it
is, dense elements, a behaviour for calls and one for construction, or a producer. Dense elements
show as properties under their indices and `length`, unless a stored property hides them.

`κ` is the type of the code that user functions run; objects only carry it.
-/

namespace Ecma

/-- What an object is. -/
inductive ObjectKind where
  | ordinary
  | array
  | function
  | regExp
  | date
  | error
  | map
  | set
  | weakMap
  | weakSet
  | promise
  | iterator
  | generator
  | proxy
deriving DecidableEq, Repr

namespace ObjectKind

/-- All kinds. -/
def all : List ObjectKind :=
  [.ordinary, .array, .function, .regExp, .date, .error, .map, .set, .weakMap, .weakSet, .promise,
    .iterator, .generator, .proxy]

/-- The name of the class that objects of the kind belong to. -/
def className : ObjectKind → String
  | ordinary => "Object"
  | array => "Array"
  | function => "Function"
  | regExp => "RegExp"
  | date => "Date"
  | error => "Error"
  | map => "Map"
  | set => "Set"
  | weakMap => "WeakMap"
  | weakSet => "WeakSet"
  | promise => "Promise"
  | iterator => "Iterator"
  | generator => "Generator"
  | proxy => "Proxy"

/-- The kind of objects of a class. -/
def ofClassName? (s : String) : Option ObjectKind := all.find? fun k => k.className == s

end ObjectKind

/-- What a function does when it runs. -/
inductive Behaviour (κ : Type) where
  /-- It does nothing and returns undefined. -/
  | idle
  /-- It runs user code. -/
  | code (c : κ)

/-- A function, with the values and scopes that its code holds on to. -/
structure Callable (κ : Type) where
  /-- Its name. -/
  name : String
  /-- The number of arguments it declares. -/
  arity : Nat
  /-- What it does. -/
  behaviour : Behaviour κ
  /-- The values that stay alive as long as the function does. -/
  captures : List Value
  /-- The scopes that stay alive as long as the function does. -/
  scopes : List ScopeId

/-- The number of a producer in its realm. -/
structure ProducerId where
  /-- The number. -/
  index : Nat
deriving DecidableEq, Repr

/-- An object. -/
structure Object (κ : Type) where
  /-- The handle of the cell that holds it. -/
  id : ObjectId
  /-- What it is. -/
  kind : ObjectKind
  /-- Its stored properties. -/
  properties : OrderedMap Text Property
  /-- The object it inherits from. -/
  prototype : Option ObjectId
  /-- What it does when called. -/
  callable : Option (Callable κ)
  /-- What it does when constructing. -/
  constructs : Option (Callable κ)
  /-- Its hidden state. -/
  slots : OrderedMap String Value
  /-- Its dense elements. -/
  elements : Option (Array Value)
  /-- Where its items come from, if it is an iterator. -/
  producer : Option ProducerId
  /-- Whether assignment may add properties. -/
  extensible : Bool
  /-- The scope whose variables its properties stand in for. -/
  scope : Option ScopeId

/-- The key of the element count. -/
def lengthKey : Text := .ofString "length"

/-- The most elements that an array may grow by at a time. -/
def maxDenseGap : Nat := 0x10000

/-- The length that a value is for an array that has `current` elements now. -/
def arrayLength (v : Value) (current : Nat) : Except Fault Nat :=
  match v with
  | .number x =>
    match x.toNat? with
    | some n => if n ≤ current + maxDenseGap then .ok n else .error .arrayLength
    | none => .error .arrayLength
  | _ => .error .arrayLength

/-- Elements cut or filled up with undefined to a length. -/
def resize (elements : Array Value) (n : Nat) : Array Value :=
  elements.take n ++ Array.replicate (n - elements.size) Value.undefined

/-- What assigning to a property did. -/
inductive Stored (κ : Type) where
  /-- The value was stored. -/
  | object (o : Object κ)
  /-- Nothing happened. -/
  | ignored
  /-- A function has to be called with the value. -/
  | setter (f : Value)

namespace Object

variable {κ : Type}

/-- An object without properties. -/
def make (kind : ObjectKind) (prototype : Option ObjectId) : Object κ :=
  { id := ⟨0⟩, kind, properties := .empty, prototype, callable := none, constructs := none,
    slots := .empty, elements := none, producer := none, extensible := true, scope := none }

/-! ## Own properties -/

/-- The property that the dense elements show under a key. This is `array_own`. -/
def elementProperty? (o : Object κ) (key : Text) : Option Property := do
  let elements ← o.elements
  if key = lengthKey then
    some (.data (.ofNat elements.size) true false false)
  else
    let i ← key.arrayIndex?
    let v ← elements[i]?
    some (.plain v)

/-- The own property under a key. This is `get_own_property`. -/
def own? (o : Object κ) (key : Text) : Option Property :=
  (o.properties.get? key).or (o.elementProperty? key)

/-- Whether there is an own property under a key. This is `has_own_property`. -/
def hasOwn (o : Object κ) (key : Text) : Bool :=
  o.properties.contains key || (o.elementProperty? key).isSome

theorem hasOwn_eq (o : Object κ) (key : Text) : o.hasOwn key = (o.own? key).isSome :=
  (Option.isSome_or ..).symm

/-- The object with a stored property. -/
def putProperty (o : Object κ) (key : Text) (p : Property) : Object κ :=
  { o with properties := o.properties.insert key p }

/-- The object with a property that enumeration does not show. -/
def putHidden (o : Object κ) (key : Text) (v : Value) : Object κ := o.putProperty key (.hidden v)

/-- The own keys: indices in ascending order, then `length` for dense elements, then the other keys
in insertion order. -/
def ownKeys (o : Object κ) : List Text :=
  let count := (o.elements.map Array.size).getD 0
  let stored := o.properties.keys.filterMap Text.arrayIndex?
  let sparse := (stored.filter (count ≤ ·)).mergeSort
  let length := if o.elements.isSome && !o.properties.contains lengthKey then [lengthKey] else []
  (List.range count ++ sparse).map Text.ofNat ++ length
    ++ o.properties.keys.filter fun k => k.arrayIndex?.isNone

/-! ## Changing properties -/

/-- Assigns under a key without stored property. An index right behind the dense elements, or not
too far behind them, makes them grow. This is `set_absent`. -/
def assignAbsent (o : Object κ) (key : Text) (v : Value) : Except Fault (Stored κ) :=
  let add : Stored κ := if o.extensible then .object (o.putProperty key (.plain v)) else .ignored
  match o.elements with
  | none => .ok add
  | some elements =>
    if key = lengthKey then do
      let n ← arrayLength v elements.size
      return .object { o with elements := some (resize elements n) }
    else
      match key.arrayIndex? with
      | none => .ok add
      | some i =>
        if i < elements.size then
          .ok (.object { o with elements := some (elements.setIfInBounds i v) })
        else if !o.extensible then .ok .ignored
        else if i - elements.size ≤ maxDenseGap then
          .ok (.object { o with elements := some ((resize elements i).push v) })
        else .ok add

/-- Assigns to an own property. Inherited properties are not looked at, and what may not be written
is left alone without a complaint. This is the part of `set` that runs no user code. -/
def assign (o : Object κ) (key : Text) (v : Value) : Except Fault (Stored κ) :=
  match o.properties.get? key with
  | some (.accessor _ (some f) _ _) => .ok (.setter f)
  | some (.accessor _ none _ _) => .ok .ignored
  | some (.data _ w e c) =>
    if w then .ok (.object (o.putProperty key (.data v w e c))) else .ok .ignored
  | none => o.assignAbsent key v

/-- The dense elements after a definition that concerns them, if the definition does: the length, or
a present index with a descriptor that denies no attribute. -/
def defineElement? (o : Object κ) (key : Text) (d : Descriptor) :
    Option (Except Fault (Array Value)) :=
  match o.elements with
  | none => none
  | some elements =>
    if d.isAccessor || o.properties.contains key then none
    else if key = lengthKey then
      match d.value with
      | none => some (.ok elements)
      | some v => some ((arrayLength v elements.size).map (resize elements))
    else
      match key.arrayIndex? with
      | some i =>
        if i < elements.size && d.isPlain then
          some (.ok ((d.value.map (elements.setIfInBounds i)).getD elements))
        else none
      | none => none

/-- Defines an own property, whatever was there before. This is the part of `define_property` that
concerns the object alone. -/
def define (o : Object κ) (key : Text) (d : Descriptor) : Except Fault (Object κ) :=
  match o.defineElement? key d with
  | some elements => elements.map fun es => { o with elements := some es }
  | none => .ok (o.putProperty key (d.complete (o.own? key)))

/-- What deleting a property did. -/
inductive Deleted (κ : Type) where
  /-- The property may not be deleted. -/
  | refused
  /-- A stored property was removed. -/
  | property (o : Object κ)
  /-- There was no stored property; an element of that index is undefined now. -/
  | element (o : Object κ)

/-- Deletes an own property. This is the part of `delete_property` that concerns the object
alone. -/
def delete (o : Object κ) (key : Text) : Deleted κ :=
  match o.properties.get? key with
  | some p =>
    if p.configurable then .property { o with properties := o.properties.erase key } else .refused
  | none =>
    match o.elements with
    | none => .element o
    | some elements =>
      if key = lengthKey then .refused
      else
        match key.arrayIndex? with
        | none => .element o
        | some i => .element { o with elements := some (elements.setIfInBounds i .undefined) }

end Object

end Ecma
