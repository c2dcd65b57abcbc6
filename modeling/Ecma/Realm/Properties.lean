import Ecma.Realm.Variables

/-!
# Properties of objects in a realm

Looking up a property follows the prototype chain up to a limit. All operations here run no user
code: a lookup or an assignment that needs a function call says so in its result.
-/

namespace Ecma

/-- What a lookup found. -/
inductive Lookup where
  /-- A value. -/
  | value (v : Value)
  /-- A function to be called with this receiver. -/
  | getter (f receiver : Value)
deriving DecidableEq, Repr

/-- What an assignment did. -/
inductive Assignment (κ : Type) where
  /-- The value was stored. -/
  | stored (r : Realm κ)
  /-- Nothing happened. -/
  | ignored
  /-- A function has to be called with this receiver and the value. -/
  | setter (f receiver : Value)

namespace Realm

variable {κ : Type}

/-! ## Lookup -/

/-- The property under a key on a chain of at most `steps` objects. -/
def findProperty (r : Realm κ) (key : Text) : Nat → ObjectId → Except Fault (Option Property)
  | 0, _ => .error (.chainTooLong r.options.maxPrototypeDepth)
  | steps + 1, o => do
    let data ← r.object o
    match data.own? key with
    | some p => return some p
    | none =>
      match data.prototype with
      | some parent => r.findProperty key steps parent
      | none => return none

/-- The property under a key, own or inherited. -/
def property? (r : Realm κ) (o : ObjectId) (key : Text) : Except Fault (Option Property) :=
  r.findProperty key (r.options.maxPrototypeDepth + 1) o

/-- Whether a chain of at most `steps` objects has a property under a key. -/
def chainHas (r : Realm κ) (key : Text) : Nat → Option ObjectId → Except Fault Bool
  | _, none => .ok false
  | 0, some _ => .error (.chainTooLong r.options.maxPrototypeDepth)
  | steps + 1, some o => do
    let data ← r.object o
    if data.hasOwn key then return true else r.chainHas key steps data.prototype

/-- Whether there is a property under a key, own or inherited. This is `has_property`. -/
def hasProperty (r : Realm κ) (o : ObjectId) (key : Text) : Except Fault Bool :=
  r.chainHas key (r.options.maxPrototypeDepth + 1) (some o)

theorem chainHas_eq (r : Realm κ) (key : Text) (steps : Nat) (o : ObjectId) :
    r.chainHas key steps (some o) = (r.findProperty key steps o).map Option.isSome := by
  induction steps generalizing o with
  | zero => rfl
  | succ steps ih =>
    rw [chainHas, findProperty]
    cases r.object o with
    | error f => rfl
    | ok data =>
      simp only [bind, Except.bind, Object.hasOwn_eq]
      cases data.own? key with
      | some p => rfl
      | none =>
        cases data.prototype with
        | none => cases steps <;> rfl
        | some parent => exact ih parent

/-- Asking for a property finds one exactly if a lookup finds one, and fails as it fails. -/
theorem hasProperty_eq (r : Realm κ) (o : ObjectId) (key : Text) :
    r.hasProperty o key = (r.property? o key).map Option.isSome :=
  r.chainHas_eq key (r.options.maxPrototypeDepth + 1) o

/-- What a property reads as. -/
def lookupOf (receiver : Value) : Option Property → Lookup
  | some (.data v _ _ _) => .value v
  | some (.accessor (some f) _ _ _) => .getter f receiver
  | some (.accessor none _ _ _) => .value .undefined
  | none => .value .undefined

/-- Looks up a property, own or inherited. This is `get_with_receiver` up to the call of a
getter. -/
def lookup (r : Realm κ) (o : ObjectId) (key : Text) (receiver : Value) : Except Fault Lookup :=
  (r.property? o key).map (lookupOf receiver)

/-- The own property under a key. This is `get_own_property`. -/
def ownProperty? (r : Realm κ) (o : ObjectId) (key : Text) : Except Fault (Option Property) :=
  (r.object o).map (·.own? key)

/-- Whether there is an own property under a key. -/
def hasOwnProperty (r : Realm κ) (o : ObjectId) (key : Text) : Except Fault Bool :=
  (r.object o).map (·.hasOwn key)

/-- The own keys of an object. -/
def ownKeys (r : Realm κ) (o : ObjectId) : Except Fault (List Text) := (r.object o).map (·.ownKeys)

/-- Whether assignment may add properties. -/
def isExtensible (r : Realm κ) (o : ObjectId) : Except Fault Bool := (r.object o).map (·.extensible)

/-! ## Changes -/

/-- Assigns to an own property. This is `set` up to the call of a setter. -/
def assign (r : Realm κ) (o : ObjectId) (key : Text) (v : Value) : Except Fault (Assignment κ) := do
  let data ← r.object o
  match ← data.assign key v with
  | .object data' => return .stored ((r.replaceObject o data').sync data' key)
  | .ignored => return .ignored
  | .setter f => return .setter f (.object o)

/-- Defines an own property. This is `define_property`. -/
def define (r : Realm κ) (o : ObjectId) (key : Text) (d : Descriptor) : Except Fault (Realm κ) := do
  let data ← r.object o
  let data' ← data.define key d
  return (r.replaceObject o data').sync data' key

/-- Deletes an own property, and says whether it is gone now. This is `delete_property`. -/
def delete (r : Realm κ) (o : ObjectId) (key : Text) : Except Fault (Bool × Realm κ) := do
  let data ← r.object o
  match data.delete key with
  | .refused => return (false, r)
  | .property data' => return (true, (r.replaceObject o data').unlink data' key)
  | .element data' => return (true, r.replaceObject o data')

/-- Forbids that assignment adds properties. -/
def preventExtensions (r : Realm κ) (o : ObjectId) : Except Fault (Realm κ) := do
  let data ← r.object o
  return r.replaceObject o { data with extensible := false }

/-! ## Prototypes -/

/-- Whether an object is on the chain from another one, of which at most `steps` are followed. -/
def onChain (r : Realm κ) (target : ObjectId) : Nat → Option ObjectId → Except Fault Bool
  | _, none => .ok false
  | 0, some o =>
    if o = target then .ok true else .error (.chainTooLong r.options.maxPrototypeDepth)
  | steps + 1, some o =>
    if o = target then .ok true
    else do
      let data ← r.object o
      r.onChain target steps data.prototype

/-- Changes the prototype, unless the object is not extensible or the chain would be a cycle, and
says whether it is the prototype now. This is `set_prototype_of`. -/
def setPrototype (r : Realm κ) (o : ObjectId) (proto : Option ObjectId) :
    Except Fault (Bool × Realm κ) := do
  let data ← r.object o
  if data.prototype = proto then return (true, r)
  else if !data.extensible then return (false, r)
  else if ← r.onChain o (r.options.maxPrototypeDepth + 1) proto then return (false, r)
  else return (true, r.replaceObject o { data with prototype := proto })

end Realm

end Ecma
