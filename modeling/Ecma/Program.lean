import Ecma.Action
import Ecma.Realm.Bindings
import Ecma.Realm.Collect

/-!
# User programs

User code is a program: a tree of requests to the realm, each with a continuation for every answer,
interleaved with looks at the world and writes to the host's memory. A program can do all that the
operations of a realm offer, and nothing else. Programs are finite, but a request may run other
programs, so running one takes a limit on how deep such runs may nest.
-/

namespace Ecma

/-- Which primitive value is wanted of an object. -/
inductive Hint where
  | text
  | number
  | none
deriving DecidableEq, Repr

/-- What a program can ask of a realm. -/
inductive Request (κ : Type) where
  /-- Make an object of a kind. -/
  | create (kind : ObjectKind) (prototype : Option ObjectId)
  /-- Make an array. -/
  | createArray (elements : Array Value)
  /-- Make a function. -/
  | createFunction (f : Callable κ)
  /-- Make a function that constructs. -/
  | createConstructor (call construct : Callable κ)
  /-- Make an error. -/
  | createError (kind : ErrorKind) (message : String)
  /-- Make an iterator. -/
  | createIterator (code : κ)
  /-- Make a symbol. -/
  | createSymbol (description : Option Text)
  /-- Make the value that stands for a fault. -/
  | errorValue (f : Fault)
  /-- Read a property. -/
  | get (o : ObjectId) (key : Text) (receiver : Value)
  /-- Assign to a property. -/
  | set (o : ObjectId) (key : Text) (v : Value)
  /-- Define a property. -/
  | define (o : ObjectId) (key : Text) (d : Descriptor)
  /-- Delete a property. -/
  | delete (o : ObjectId) (key : Text)
  /-- Change a prototype. -/
  | setPrototype (o : ObjectId) (proto : Option ObjectId)
  /-- Forbid new properties. -/
  | preventExtensions (o : ObjectId)
  /-- Store a hidden property past all checks. -/
  | writeHidden (o : ObjectId) (key : Text) (v : Value)
  /-- Write a prototype past all checks. -/
  | writePrototype (o : ObjectId) (proto : Option ObjectId)
  /-- Write a hidden slot. -/
  | writeSlot (o : ObjectId) (name : String) (v : Value)
  /-- Write the dense elements. -/
  | writeElements (o : ObjectId) (elements : Option (Array Value))
  /-- Call a function. -/
  | call (f this : Value) (args : List Value)
  /-- Construct an instance. -/
  | construct (f : Value) (args : List Value)
  /-- Take the next item of an iterator. -/
  | iteratorNext (o : ObjectId)
  /-- Convert to a text. -/
  | toText (v : Value)
  /-- Convert to a number. -/
  | toNumber (v : Value)
  /-- Convert to a property key. -/
  | toPropertyKey (v : Value)
  /-- Convert to a primitive value. -/
  | toPrimitive (v : Value) (hint : Hint)
  /-- Compare loosely. -/
  | looselyEqual (a b : Value)
  /-- Add a scope. -/
  | addScope (kind : ScopeKind) (parent : Option ScopeId)
  /-- Register a lexical name. -/
  | createUninitialized (s : ScopeId) (name : String) (kind : BindingKind)
  /-- Declare a name. -/
  | declare (s : ScopeId) (name : String) (kind : BindingKind) (v : Value)
  /-- Read a name. -/
  | getBinding (s : ScopeId) (name : String)
  /-- Assign to a name. -/
  | setBinding (s : ScopeId) (name : String) (v : Value)
  /-- Assign to a name in one scope. -/
  | setInScope (s : ScopeId) (name : String) (v : Value)
  /-- Declare a variable unless the name is taken. -/
  | declareVar (s : ScopeId) (name : String) (v : Value) (deletable : Bool)
  /-- Hoist a function of a block. -/
  | hoistFunction (s : ScopeId) (name : String) (v : Value)
  /-- Make an object stand in for a scope. -/
  | link (s : ScopeId) (o : ObjectId)
  /-- Add a builtin. -/
  | defineBuiltin (name : String) (v : Value)
  /-- Collect garbage. -/
  | collect (scopes : List ScopeId) (values : List Value)
  /-- Collect garbage if it is due. -/
  | collectIfDue (scopes : List ScopeId) (values : List Value)

/-- The type of the answer to a request. -/
def Request.Reply {κ : Type} : Request κ → Type
  | create .. | createArray .. | createFunction .. | createConstructor .. | createError ..
  | createIterator .. => ObjectId
  | createSymbol .. => Symbol
  | errorValue .. | get .. | call .. | construct .. | toPrimitive .. | getBinding .. => Value
  | toText .. | toPropertyKey .. => Text
  | toNumber .. => Double
  | delete .. | setPrototype .. | looselyEqual .. | hoistFunction .. | collectIfDue .. => Bool
  | iteratorNext .. => Option Value
  | addScope .. => ScopeId
  | collect .. => Nat
  | set .. | define .. | preventExtensions .. | writeHidden .. | writePrototype .. | writeSlot ..
  | writeElements .. | createUninitialized .. | declare .. | setBinding .. | setInScope ..
  | declareVar .. | link .. | defineBuiltin .. => Unit

/-- A program with a result. -/
inductive Program (κ σ α : Type) where
  /-- Ends with a result. -/
  | pure (a : α)
  /-- Ends with a fault. -/
  | fail (f : Fault)
  /-- Looks at the world and goes on. -/
  | look (k : World κ σ → Program κ σ α)
  /-- Writes the memory of the host and goes on. -/
  | store (host : σ) (next : Program κ σ α)
  /-- Asks the realm for something and goes on with the answer or the fault. -/
  | ask (r : Request κ) (k : Except Fault r.Reply → Program κ σ α)

namespace Program

variable {κ σ α β : Type}

/-- One program after the other; the second is left out if the first fails. -/
def bind : Program κ σ α → (α → Program κ σ β) → Program κ σ β
  | pure a, f => f a
  | fail fault, _ => fail fault
  | look k, f => look fun w => (k w).bind f
  | store host next, f => store host (next.bind f)
  | ask r k, f => ask r fun reply => (k reply).bind f

instance : Monad (Program κ σ) where
  pure := pure
  bind := bind

/-- The result of a program, or its fault as a result. -/
def attempt : Program κ σ α → Program κ σ (Except Fault α)
  | pure a => pure (.ok a)
  | fail f => pure (.error f)
  | look k => look fun w => (k w).attempt
  | store host next => store host next.attempt
  | ask r k => ask r fun reply => (k reply).attempt

/-- Ends with a result or a fault. -/
def ofExcept : Except Fault α → Program κ σ α
  | .ok a => pure a
  | .error f => fail f

/-- Asks the realm for something; a fault is a fault of the program. -/
def request (r : Request κ) : Program κ σ r.Reply := ask r ofExcept

/-- The realm as it is now. -/
def realm : Program κ σ (Realm κ) := look fun w => pure w.realm

/-- The memory of the host as it is now. -/
def host : Program κ σ σ := look fun w => pure w.host

/-- Changes the memory of the host. -/
def modifyHost (f : σ → σ) : Program κ σ Unit := look fun w => store (f w.host) (pure ())

/-- Reads the realm. -/
def read (f : Realm κ → Except Fault α) : Program κ σ α := look fun w => ofExcept (f w.realm)

/-- Runs a program, given how requests are answered. Not ending is passed on, whatever the program
would do about a fault. -/
def run (perform : (r : Request κ) → Action κ σ r.Reply) : Program κ σ α → Action κ σ α
  | pure a => Action.pure a
  | fail f => Action.fail f
  | look k => fun w => (k w).run perform w
  | store host next => fun w => next.run perform { w with host := host }
  | ask r k => (perform r).attempt.bind fun reply => (k reply).run perform

end Program

/-- What the codes of user functions and producers stand for. -/
structure Library (κ σ : Type) where
  /-- The program of a function, given the receiver and the arguments. -/
  apply : κ → Value → List Value → Program κ σ Value
  /-- The program of a producer at its start of that number; no value means that it is exhausted. -/
  produce : κ → Nat → Program κ σ (Option Value)

end Ecma
