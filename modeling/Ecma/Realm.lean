import Ecma.Heap

/-!
# Realms

A realm owns a heap, its scopes and the producers of its iterators. One scope and one object are its
global pair. The nine prototypes that every realm starts with live in the first cells and are never
collected.
-/

namespace Ecma

/-- How a realm behaves. -/
structure Options where
  /-- Whether the code is strict. -/
  strict : Bool := false
  /-- Whether functions of blocks are hoisted in sloppy code. -/
  hoisting : Bool := true
  /-- How many objects are made before an automatic collection is due. -/
  collectionThreshold : Nat := 4096
  /-- The longest prototype chain that is followed. -/
  maxPrototypeDepth : Nat := 10000
deriving DecidableEq, Repr

/-- The prototypes that every realm starts with. -/
inductive Intrinsic where
  | object
  | function
  | array
  | iterator
  | error (kind : ErrorKind)
deriving DecidableEq, Repr

namespace Intrinsic

/-- All of them, in the order of their cells. -/
def all : List Intrinsic :=
  [.object, .function, .array, .iterator, .error .error, .error .syntaxError,
    .error .referenceError, .error .typeError, .error .rangeError]

theorem mem_all (i : Intrinsic) : i ∈ all := by
  rcases i with _ | _ | _ | _ | kind
  case error => cases kind <;> simp [all]
  all_goals simp [all]

/-- The handle of a prototype. -/
def id : Intrinsic → ObjectId
  | object => ⟨0⟩
  | function => ⟨1⟩
  | array => ⟨2⟩
  | iterator => ⟨3⟩
  | error .error => ⟨4⟩
  | error .syntaxError => ⟨5⟩
  | error .referenceError => ⟨6⟩
  | error .typeError => ⟨7⟩
  | error .rangeError => ⟨8⟩

end Intrinsic

/-- Where the items of an iterator come from. -/
structure Producer (κ : Type) where
  /-- The code that makes the items. -/
  code : κ
  /-- How many times it has been started. -/
  started : Nat
  /-- Whether it is running now. -/
  running : Bool

/-- The state of a realm. -/
structure Realm (κ : Type) where
  /-- Its objects. -/
  heap : Heap κ
  /-- Its scopes. -/
  scopes : Array Scope
  /-- The producers of its iterators. -/
  producers : Array (Producer κ)
  /-- The global scope. -/
  globalScope : ScopeId
  /-- The global object. -/
  globalObject : ObjectId
  /-- The number of the next symbol, a plain number like that of a symbol. -/
  nextSymbol : Nat
  /-- The arrays that are being joined to a text right now, the innermost first. -/
  joining : List ObjectId
  /-- How the realm behaves. -/
  options : Options

namespace Realm

variable {κ : Type}

/-! ## Objects -/

/-- The object behind a handle. -/
def object (r : Realm κ) (o : ObjectId) : Except Fault (Object κ) :=
  match r.heap.get? o with
  | some data => .ok data
  | none => .error (.collected o)

/-- The realm with another heap. -/
def withHeap (r : Realm κ) (h : Heap κ) : Realm κ := { r with heap := h }

@[simp] theorem heap_withHeap (r : Realm κ) (h : Heap κ) : (r.withHeap h).heap = h := rfl

/-- Changes an object, if its cell holds one. -/
def modifyObject (r : Realm κ) (o : ObjectId) (f : Object κ → Object κ) : Realm κ :=
  r.withHeap (r.heap.modify o f)

/-- Replaces an object, if its cell holds one. -/
def replaceObject (r : Realm κ) (o : ObjectId) (data : Object κ) : Realm κ :=
  r.withHeap (r.heap.replace o data)

/-- Gives an object a cell. -/
def allocate (r : Realm κ) (data : Object κ) : ObjectId × Realm κ :=
  let (id, heap) := r.heap.allocate data
  (id, r.withHeap heap)

/-- Whether a value can be called. -/
def isCallable (r : Realm κ) : Value → Bool
  | .object o => (r.heap.get? o).any fun data => data.callable.isSome
  | _ => false

/-- The name of the type of a value. This is `typeof_val`. -/
def typeOf (r : Realm κ) : Value → String
  | .undefined => "undefined"
  | .null => "object"
  | .boolean _ => "boolean"
  | .number _ => "number"
  | .string _ => "string"
  | .symbol _ => "symbol"
  | .object o => if r.isCallable (.object o) then "function" else "object"

/-! ## Scopes -/

/-- The scope with a number. -/
def scope (r : Realm κ) (s : ScopeId) : Scope := r.scopes[s.index]?.getD default

/-- Changes a scope. -/
def modifyScope (r : Realm κ) (s : ScopeId) (f : Scope → Scope) : Realm κ :=
  { r with scopes := r.scopes.modify s.index f }

/-- A scope and the scopes around it, from the inside out. -/
def chain (r : Realm κ) (s : ScopeId) : List ScopeId := s :: (r.scope s).outer

/-- Adds a scope inside another one, or outside all others. -/
def addScope (r : Realm κ) (kind : ScopeKind) (parent : Option ScopeId) : ScopeId × Realm κ :=
  (⟨r.scopes.size⟩, { r with scopes := r.scopes.push (.make kind (parent.elim [] r.chain)) })

/-! ## Making objects -/

/-- Makes an object without properties. This is `create_object_of_kind`. -/
def create (r : Realm κ) (kind : ObjectKind) (prototype : Option ObjectId) : ObjectId × Realm κ :=
  r.allocate (.make kind prototype)

/-- Makes an ordinary object. -/
def createObject (r : Realm κ) : ObjectId × Realm κ := r.create .ordinary (some Intrinsic.object.id)

/-- Makes an array of the given elements. -/
def createArray (r : Realm κ) (elements : Array Value) : ObjectId × Realm κ :=
  r.allocate { Object.make .array (some Intrinsic.array.id) with elements := some elements }

/-- The object of a function, with its arity and its name as properties. -/
def functionObject (f : Callable κ) : Object κ :=
  let o := (Object.make .function (some Intrinsic.function.id) : Object κ)
  let o := o.putProperty lengthKey (.data (.ofNat f.arity) false false true)
  let o := o.putProperty (.ofString "name") (.data (.ofString f.name) false false true)
  { o with callable := some f }

/-- Makes a function. -/
def createFunction (r : Realm κ) (f : Callable κ) : ObjectId × Realm κ :=
  r.allocate (functionObject f)

/-- The key of the object that instances inherit from. -/
def prototypeKey : Text := .ofString "prototype"

/-- Makes a function that also constructs, and a prototype for its instances that points back. -/
def createConstructor (r : Realm κ) (call construct : Callable κ) : ObjectId × Realm κ :=
  let (func, r) := r.createFunction call
  let (proto, r) := r.createObject
  let r := r.modifyObject proto fun o => o.putHidden (.ofString "constructor") (.object func)
  let r := r.modifyObject func fun o =>
    { o.putProperty prototypeKey (.data (.object proto) true false false) with
      constructs := some construct }
  (func, r)

/-- Makes an error of a class with a message. -/
def createError (r : Realm κ) (kind : ErrorKind) (message : String) : ObjectId × Realm κ :=
  let o := (Object.make .error (some (Intrinsic.error kind).id) : Object κ)
  let o := o.putHidden (.ofString "message") (.ofString message)
  r.allocate { o with slots := o.slots.insert "ErrorData" (.ofString kind.name) }

/-- The value that stands for a fault: a thrown value is itself, and any other fault is an error
object. -/
def errorValue (r : Realm κ) (f : Fault) : Value × Realm κ :=
  match f with
  | .thrown v => (v, r)
  | f =>
    match f.kind? with
    | some kind =>
      let (o, r) := r.createError kind f.detail
      (.object o, r)
    | none => (.undefined, r)

/-- Makes an iterator whose items the code produces. -/
def createIterator (r : Realm κ) (code : κ) : ObjectId × Realm κ :=
  let producer : ProducerId := ⟨r.producers.size⟩
  let r := { r with producers := r.producers.push ⟨code, 0, false⟩ }
  r.allocate
    { Object.make .iterator (some Intrinsic.iterator.id) with producer := some producer }

/-- Counts a start of a producer and marks it as running. -/
def startProducer (r : Realm κ) (p : ProducerId) : Realm κ :=
  { r with
    producers := r.producers.modify p.index fun producer =>
      { producer with started := producer.started + 1, running := true } }

/-- Marks a producer as not running. -/
def stopProducer (r : Realm κ) (p : ProducerId) : Realm κ :=
  { r with
    producers := r.producers.modify p.index fun producer => { producer with running := false } }

/-- Makes a symbol that differs from all others of the realm. This is `new_symbol`. -/
def createSymbol (r : Realm κ) (description : Option Text) : Symbol × Realm κ :=
  (⟨r.nextSymbol, description⟩, { r with nextSymbol := r.nextSymbol + 1 })

end Realm

end Ecma
