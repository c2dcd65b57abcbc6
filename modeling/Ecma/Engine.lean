import Ecma.Program

/-!
# Calls

Operations that may run user code are written over an engine, which says what running user code and
converting a value to a text do. All of them are plain definitions in the engine; how engines are
made from a library of programs is said where the requests are answered.
-/

namespace Ecma

/-- What running user code and converting to a text do. -/
structure Engine (κ σ : Type) where
  /-- Runs the code of a function, given the receiver and the arguments. -/
  apply : κ → Value → List Value → Action κ σ Value
  /-- Runs the code of a producer for the start of that number. -/
  produce : κ → Nat → Action κ σ (Option Value)
  /-- Converts a value to a text. -/
  text : Value → Action κ σ Text

namespace Engine

variable {κ σ : Type}

/-! ## Functions -/

/-- Runs what a function does. -/
def behave (e : Engine κ σ) (this : Value) (args : List Value) : Behaviour κ → Action κ σ Value
  | .idle => pure .undefined
  | .code c => e.apply c this args

/-- What a value does in one of the two roles of a function; a value that is no object does
nothing. -/
def behaviourOf (role : Object κ → Option (Callable κ)) :
    Value → Action κ σ (Option (Behaviour κ))
  | .object o => do
    let data ← Action.read (·.object o)
    return (role data).map Callable.behaviour
  | _ => pure none

/-- Calls a function. -/
def call (e : Engine κ σ) (f this : Value) (args : List Value) : Action κ σ Value := do
  match ← behaviourOf Object.callable f with
  | some b => e.behave this args b
  | none => Action.fail (.notFunction f)

/-! ## Properties and names -/

/-- Ends a lookup. -/
def finishLookup (e : Engine κ σ) : Lookup → Action κ σ Value
  | .value v => pure v
  | .getter f receiver => e.call f receiver []

/-- Ends an assignment of a value. What a setter returns is of no interest. -/
def finishAssignment (e : Engine κ σ) (v : Value) : Assignment κ → Action κ σ Unit
  | .stored r => Action.modifyRealm fun _ => r
  | .ignored => pure ()
  | .setter f receiver => do
    let _ ← e.call f receiver [v]

/-- Reads a property, own or inherited. This is `get_with_receiver`. -/
def get (e : Engine κ σ) (o : ObjectId) (key : Text) (receiver : Value) : Action κ σ Value := do
  let found ← Action.read (·.lookup o key receiver)
  e.finishLookup found

/-- Assigns to a property. -/
def set (e : Engine κ σ) (o : ObjectId) (key : Text) (v : Value) : Action κ σ Unit := do
  let assignment ← Action.read (·.assign o key v)
  e.finishAssignment v assignment

/-- Reads a name. -/
def getBinding (e : Engine κ σ) (s : ScopeId) (name : String) : Action κ σ Value := do
  let found ← Action.read (·.resolve s name)
  e.finishLookup found

/-- Assigns to a name. -/
def setBinding (e : Engine κ σ) (s : ScopeId) (name : String) (v : Value) : Action κ σ Unit := do
  let assignment ← Action.read (·.assignName s name v)
  e.finishAssignment v assignment

/-! ## Construction -/

/-- The object that the instances of a constructor inherit from. -/
def instancePrototype (e : Engine κ σ) (f : Value) : Action κ σ ObjectId :=
  match f with
  | .object o => do
    match ← e.get o Realm.prototypeKey f with
    | .object p => pure p
    | _ => pure Intrinsic.object.id
  | _ => pure Intrinsic.object.id

/-- Makes an instance and lets the constructor fill it. An object that the constructor returns takes
its place. -/
def construct (e : Engine κ σ) (f : Value) (args : List Value) : Action κ σ Value := do
  match ← behaviourOf Object.constructs f with
  | some b => do
    let proto ← e.instancePrototype f
    let o ← Action.change (·.create .ordinary (some proto))
    let v ← e.behave (.object o) args b
    return if v.isObject then v else .object o
  | none => Action.fail (.notConstructor f)

/-! ## Iteration -/

/-- The slot that says that an iterator is exhausted. -/
def doneSlot : String := "Done"

/-- Whether an iterator is known to be exhausted. -/
def isExhausted (data : Object κ) : Bool := data.slots.get? doneSlot == some (.boolean true)

/-- Notes that an iterator is exhausted, if its cell still holds the object with that producer. -/
def exhaust (o : ObjectId) (p : ProducerId) (r : Realm κ) : Realm κ :=
  r.modifyObject o fun data =>
    if data.producer = some p then { data with slots := data.slots.insert doneSlot (.boolean true) }
    else data

/-- Runs a producer once. It counts as started even if it fails. -/
def step (e : Engine κ σ) (p : ProducerId) : Action κ σ (Option Value) := do
  let r ← Action.realm
  match r.producers[p.index]? with
  | none => Action.fail .notIterator
  | some producer =>
    if producer.running then Action.fail .producerBusy
    else do
      Action.modifyRealm (·.startProducer p)
      let result ← (e.produce producer.code producer.started).attempt
      Action.modifyRealm (·.stopProducer p)
      Action.ofExcept result

/-- Takes the next item of an iterator; there is none once the iterator is exhausted. -/
def iteratorNext (e : Engine κ σ) (o : ObjectId) : Action κ σ (Option Value) := do
  let data ← Action.read (·.object o)
  if isExhausted data then return none
  else
    match data.producer with
    | none => Action.fail .notIterator
    | some p => do
      let item ← e.step p
      if item.isNone then Action.modifyRealm (exhaust o p)
      return item

end Engine

end Ecma
