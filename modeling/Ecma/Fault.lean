import Ecma.Value

/-!
# Faults

Every way in which an operation can fail, the error class it is reported under, and its wording. A
thrown value is passed on unchanged and belongs to no class.
-/

namespace Ecma

/-- The error classes that faults are reported under. -/
inductive ErrorKind where
  | error
  | syntaxError
  | referenceError
  | typeError
  | rangeError
deriving DecidableEq, Repr

/-- The name of an error class. -/
def ErrorKind.name : ErrorKind → String
  | error => "Error"
  | syntaxError => "SyntaxError"
  | referenceError => "ReferenceError"
  | typeError => "TypeError"
  | rangeError => "RangeError"

/-- Why an operation failed. -/
inductive Fault where
  /-- A second declaration of a lexical name in one scope. -/
  | alreadyDeclared (name : String)
  /-- A lexical name that is used before its declaration has run. -/
  | uninitialized (name : String)
  /-- A name that no scope declares. -/
  | notDefined (name : String)
  /-- An assignment to a constant. -/
  | constAssignment (name : String)
  /-- A handle whose cell is empty. -/
  | collected (o : ObjectId)
  /-- A call of something that cannot be called. -/
  | notFunction (callee : Value)
  /-- A construction by something that cannot construct. -/
  | notConstructor (callee : Value)
  /-- A step of an object without a producer. -/
  | notIterator
  /-- A step of an iterator whose producer is running. -/
  | producerBusy
  /-- An object whose conversion methods give objects only. -/
  | noPrimitive
  /-- A symbol where a text is needed. -/
  | symbolAsText
  /-- A symbol where a number is needed. -/
  | symbolAsNumber
  /-- A prototype chain that is longer than allowed. -/
  | chainTooLong (limit : Nat)
  /-- A length that no array can have. -/
  | arrayLength
  /-- A type error that a program raised with a text of its own. -/
  | typeError (text : String)
  /-- A range error that a program raised with a text of its own. -/
  | rangeError (text : String)
  /-- A value that a program threw. -/
  | thrown (v : Value)
deriving DecidableEq, Repr

namespace Fault

/-- The error class of a fault; thrown values have none. -/
def kind? : Fault → Option ErrorKind
  | alreadyDeclared _ => some .syntaxError
  | uninitialized _ | notDefined _ => some .referenceError
  | constAssignment _ | collected _ | notFunction _ | notConstructor _ | notIterator | producerBusy
  | noPrimitive | symbolAsText | symbolAsNumber | typeError _ => some .typeError
  | chainTooLong _ | arrayLength | rangeError _ => some .rangeError
  | thrown _ => none

/-- The message of the error object for a fault. -/
def detail : Fault → String
  | alreadyDeclared name => "Identifier '" ++ name ++ "' has already been declared"
  | uninitialized name => "Cannot access '" ++ name ++ "' before initialization"
  | notDefined name => name ++ " is not defined"
  | constAssignment _ => "Assignment to constant variable."
  | collected o => "object #" ++ toString o.index ++ " has been collected"
  | notFunction v => v.display ++ " is not a function"
  | notConstructor v => v.display ++ " is not a constructor"
  | notIterator => "object is not an iterator"
  | producerBusy => "Generator is already running"
  | noPrimitive => "Cannot convert object to primitive value"
  | symbolAsText => "Cannot convert a Symbol value to a string"
  | symbolAsNumber => "Cannot convert a Symbol value to a number"
  | chainTooLong limit => "Maximum prototype chain length (" ++ toString limit ++ ") exceeded"
  | arrayLength => "Invalid array length"
  | typeError text => text
  | rangeError text => text
  | thrown v => v.display

/-- The full wording of a fault. It names the constant that was assigned to, which the error object
does not. -/
def message (f : Fault) : String :=
  match f with
  | thrown v => "Uncaught " ++ v.display
  | constAssignment name => "TypeError: Assignment to constant variable '" ++ name ++ "'"
  | f => (f.kind?.map fun k => k.name ++ ": ").getD "" ++ f.detail

end Fault

end Ecma
