import Ecma.Program

/-!
# Scripts

A script is a list of operations on a realm. Its operands name registers, the receiver and the
arguments of the function they stand in, or are literal values. User functions are scripts
themselves, with a result. Scopes are named by their place in the list of scopes that the script has
made, which starts with the first global scope.
-/

namespace Ecma.Script

/-- Where a value comes from. -/
inductive Operand where
  /-- It is given. -/
  | literal (v : Value)
  /-- From a register. -/
  | register (name : String)
  /-- The receiver of the function that runs. -/
  | receiver
  /-- An argument of the function that runs. -/
  | argument (i : Nat)
deriving DecidableEq, Repr

/-- Where a property key comes from. A key is converted before the other operands of its operation
are read, since a conversion may run functions that write registers. -/
inductive KeyOperand where
  /-- It is given. -/
  | text (t : Text)
  /-- From a value, by conversion. -/
  | of (v : Operand)
deriving DecidableEq, Repr

/-- A partial property whose values are operands. -/
structure DescriptorOperand where
  /-- The value. -/
  value : Option Operand := none
  /-- Whether the value may be written. -/
  writable : Option Bool := none
  /-- The function that reads. -/
  get : Option Operand := none
  /-- The function that writes. -/
  set : Option Operand := none
  /-- Whether enumeration shows the property. -/
  enumerable : Option Bool := none
  /-- Whether the property may be deleted. -/
  configurable : Option Bool := none
deriving DecidableEq, Repr

/-- The descriptor of a plain property. -/
def DescriptorOperand.plain (v : Operand) : DescriptorOperand :=
  { value := some v, writable := some true, enumerable := some true, configurable := some true }

/-- What an operation raises. -/
inductive Raised where
  /-- A fault that is given. -/
  | fault (f : Fault)
  /-- A value that is thrown. -/
  | thrown (v : Operand)
deriving DecidableEq, Repr

/-- What a function or an item of an iterator does: operations, and then a result. -/
structure Body (ω : Type) where
  /-- The operations. -/
  ops : List ω
  /-- The result; undefined if there is none. -/
  result : Option Operand

/-- A user function. -/
structure FunctionSpec (ω : Type) where
  /-- Its name. -/
  name : String
  /-- The number of arguments it declares. -/
  arity : Nat
  /-- What it does. -/
  body : Body ω
  /-- The values it keeps alive. -/
  captures : List Operand
  /-- The scopes it keeps alive. -/
  scopes : List Nat

/-- An item of an iterator. -/
structure ItemSpec (ω : Type) where
  /-- What is done to make it. -/
  body : Body ω
  /-- Whether the iterator is exhausted then. -/
  done : Bool

/-- An operation of a script. -/
inductive Op where
  /-- A value as it is. -/
  | value (v : Operand)
  /-- Write a value to the log. -/
  | log (v : Operand)
  /-- Fail. -/
  | raise (r : Raised)
  /-- The value that stands for the fault of an operation, if it fails. -/
  | catching (op : Op)
  /-- Keep the value that an operation results in. -/
  | keep (register : String) (op : Op)
  /-- A prototype that every realm has. -/
  | intrinsic (i : Intrinsic)
  /-- The global object. -/
  | globalObject
  /-- Make an object of a kind. -/
  | create (kind : ObjectKind) (prototype : Operand)
  /-- Make an array. -/
  | createArray (elements : List Operand)
  /-- Make a function. -/
  | createFunction (f : FunctionSpec Op)
  /-- Make a function that constructs. -/
  | createConstructor (call construct : FunctionSpec Op)
  /-- Make an error. -/
  | createError (kind : ErrorKind) (message : String)
  /-- Make an iterator. -/
  | createIterator (items : List (ItemSpec Op))
  /-- Make a symbol. -/
  | createSymbol (description : Option Text)
  /-- Make a chain of objects, each the prototype of the next. -/
  | createChain (length : Nat) (root : Operand)
  /-- Wrap a value in arrays. -/
  | nest (v : Operand) (depth : Nat)
  /-- How the realm behaves. -/
  | options
  /-- Read a property; the receiver is the object itself if none is given. -/
  | get (o : Operand) (key : KeyOperand) (receiver : Option Operand)
  /-- Assign to a property. -/
  | set (o : Operand) (key : KeyOperand) (v : Operand)
  /-- Define a property. -/
  | define (o : Operand) (key : KeyOperand) (d : DescriptorOperand)
  /-- Define an own property of one object on another one. -/
  | copyProperty (o : Operand) (key : KeyOperand) (target : Operand)
  /-- Store a hidden property past all checks. -/
  | writeHidden (o : Operand) (key : KeyOperand) (v : Operand)
  /-- The own property under a key. -/
  | ownProperty (o : Operand) (key : KeyOperand)
  /-- Whether there is an own property. -/
  | hasOwnProperty (o : Operand) (key : KeyOperand)
  /-- Whether there is a property, own or inherited. -/
  | hasProperty (o : Operand) (key : KeyOperand)
  /-- Delete a property. -/
  | delete (o : Operand) (key : KeyOperand)
  /-- The own keys, possibly in the order of their units. -/
  | ownKeys (o : Operand) (sorted : Bool)
  /-- Change a prototype. -/
  | setPrototype (o proto : Operand)
  /-- Forbid new properties. -/
  | preventExtensions (o : Operand)
  /-- Whether assignment may add properties. -/
  | isExtensible (o : Operand)
  /-- Write a prototype past all checks. -/
  | writePrototype (o proto : Operand)
  /-- Write a hidden slot. -/
  | writeSlot (o : Operand) (name : String) (v : Operand)
  /-- Write the dense elements. -/
  | writeElements (o : Operand) (elements : Option (List Operand))
  /-- All about an object. -/
  | inspect (o : Operand)
  /-- The summary of an object. -/
  | summarize (o : Operand)
  /-- Whether a value can be called. -/
  | isCallable (v : Operand)
  /-- Call a function. -/
  | call (f this : Operand) (args : List Operand)
  /-- Construct an instance. -/
  | construct (f : Operand) (args : List Operand)
  /-- Take the next item of an iterator. -/
  | iteratorNext (o : Operand)
  /-- All conversions of a value. -/
  | convert (v : Operand)
  /-- Convert to a text. -/
  | toText (v : Operand)
  /-- Convert to a number. -/
  | toNumber (v : Operand)
  /-- Convert to a property key. -/
  | toPropertyKey (v : Operand)
  /-- Convert to a primitive value. -/
  | toPrimitive (v : Operand) (hint : Hint)
  /-- All comparisons of two values. -/
  | compare (a b : Operand)
  /-- Compare loosely. -/
  | looselyEqual (a b : Operand)
  /-- Add a scope. -/
  | addScope (kind : ScopeKind) (parent : Option Nat)
  /-- Add nested blocks, of which only the innermost is listed. -/
  | addBlocks (parent length : Nat)
  /-- All about a scope. -/
  | inspectScope (s : Nat)
  /-- The scope that variables belong to. -/
  | functionScope (s : Nat)
  /-- The global scope and the global object. -/
  | globals
  /-- Register a lexical name. -/
  | createUninitialized (s : Nat) (name : String) (kind : BindingKind)
  /-- Declare a name. -/
  | declare (s : Nat) (name : String) (kind : BindingKind) (v : Operand)
  /-- Read a name. -/
  | getBinding (s : Nat) (name : String)
  /-- Assign to a name. -/
  | setBinding (s : Nat) (name : String) (v : Operand)
  /-- Assign to a name in one scope. -/
  | setInScope (s : Nat) (name : String) (v : Operand)
  /-- Declare a variable unless the name is taken. -/
  | declareVar (s : Nat) (name : String) (v : Operand) (deletable : Bool)
  /-- Hoist a function of a block. -/
  | hoistFunction (s : Nat) (name : String) (v : Operand)
  /-- Make an object stand in for a scope. -/
  | link (s : Nat) (o : Operand)
  /-- Add a builtin. -/
  | defineBuiltin (name : String) (v : Operand)
  /-- What is known about names. -/
  | probe (s : Nat) (names : List String)
  /-- Collect garbage. -/
  | collect (scopes : List Nat) (values : List Operand)
  /-- Collect garbage if it is due. -/
  | collectIfDue (scopes : List Nat) (values : List Operand)
  /-- How many objects there are. -/
  | liveCount
  /-- Whether a handle leads to an object. -/
  | isLive (o : Operand)

namespace Op

/-- Make an ordinary object. -/
def createObject : Op := create .ordinary (.literal (.object Intrinsic.object.id))

/-- Define a plain property. -/
def definePlain (o : Operand) (key : KeyOperand) (v : Operand) : Op := define o key (.plain v)

end Op

/-- What user functions and producers run. -/
inductive Code where
  /-- A body with a receiver and arguments. -/
  | body (b : Body Op)
  /-- One item after the other. -/
  | items (items : List (ItemSpec Op))

end Ecma.Script
