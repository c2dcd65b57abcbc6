import Ecma.Value

/-!
# Properties and descriptors

A stored property holds either a value or a pair of accessors. A descriptor is a partial property:
what it leaves open is taken from the property it replaces, and else is false, undefined or absent.
-/

namespace Ecma

/-- A stored property. -/
inductive Property where
  /-- A value that may be written, or not. -/
  | data (value : Value) (writable enumerable configurable : Bool)
  /-- Functions that are called to read and to write. -/
  | accessor (get set : Option Value) (enumerable configurable : Bool)
deriving DecidableEq, Repr

namespace Property

/-- What plain assignment creates. -/
def plain (v : Value) : Property := data v true true true

/-- A property that enumeration does not show. -/
def hidden (v : Value) : Property := data v true false true

/-- Whether the property has accessors. -/
def isAccessor : Property → Bool
  | accessor .. => true
  | data .. => false

/-- Whether enumeration shows the property. -/
def enumerable : Property → Bool
  | data _ _ e _ => e
  | accessor _ _ e _ => e

/-- Whether the property may be deleted. -/
def configurable : Property → Bool
  | data _ _ _ c => c
  | accessor _ _ _ c => c

/-- The value, if it is not computed by an accessor. -/
def value? : Property → Option Value
  | data v _ _ _ => some v
  | accessor .. => none

/-- The property with another value, if it has a value at all. -/
def withValue (v : Value) : Property → Property
  | data _ w e c => data v w e c
  | accessor g s e c => accessor g s e c

/-- The values that the property keeps alive. -/
def references : Property → List Value
  | data v _ _ _ => [v]
  | accessor g s _ _ => g.toList ++ s.toList

end Property

/-- A partial property. -/
structure Descriptor where
  /-- The value. -/
  value : Option Value := none
  /-- Whether the value may be written. -/
  writable : Option Bool := none
  /-- The function that reads. -/
  get : Option Value := none
  /-- The function that writes. -/
  set : Option Value := none
  /-- Whether enumeration shows the property. -/
  enumerable : Option Bool := none
  /-- Whether the property may be deleted. -/
  configurable : Option Bool := none
deriving DecidableEq, Repr

namespace Descriptor

/-- Whether the descriptor has a field that only properties with a value have. This is
`is_data_descriptor`. -/
def isData (d : Descriptor) : Bool := d.value.isSome || d.writable.isSome

/-- Whether the descriptor has an accessor. -/
def isAccessor (d : Descriptor) : Bool := d.get.isSome || d.set.isSome

/-- Whether the descriptor denies none of the three attributes. -/
def isPlain (d : Descriptor) : Bool :=
  d.writable != some false && d.enumerable != some false && d.configurable != some false

/-- The descriptor of a plain property. -/
def plain (v : Value) : Descriptor :=
  { value := some v, writable := some true, enumerable := some true, configurable := some true }

/-- The property that the descriptor makes of the current one. This is `into_property`. -/
def complete (d : Descriptor) (current : Option Property) : Property :=
  let e := d.enumerable.getD (current.any Property.enumerable)
  let c := d.configurable.getD (current.any Property.configurable)
  if d.isAccessor then
    match current with
    | some (.accessor g s _ _) => .accessor (d.get.or g) (d.set.or s) e c
    | _ => .accessor d.get d.set e c
  else
    match current with
    | some (.accessor g s _ _) =>
      if d.isData then .data (d.value.getD .undefined) (d.writable.getD false) e c
      else .accessor g s e c
    | some (.data v w _ _) => .data (d.value.getD v) (d.writable.getD w) e c
    | none => .data (d.value.getD .undefined) (d.writable.getD false) e c

/-- The full description of a property. An absent accessor stays absent. -/
def ofProperty : Property → Descriptor
  | .data v w e c =>
    { value := some v, writable := some w, enumerable := some e, configurable := some c }
  | .accessor g s e c => { get := g, set := s, enumerable := some e, configurable := some c }

end Descriptor

end Ecma
