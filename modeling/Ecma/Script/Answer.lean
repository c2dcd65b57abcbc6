import Ecma.Script

/-!
# Answers

What the operations of a script answer.
-/

namespace Ecma.Script

/-- All conversions of a value. -/
structure Conversions where
  /-- The value. -/
  value : Value
  /-- The name of its type. -/
  typeName : String
  /-- Its number. -/
  number : Except Fault Double
  /-- Its text. -/
  text : Except Fault Text
  /-- Its property key. -/
  key : Except Fault Text
  /-- Its primitive values for a text, for a number and without a wish. -/
  primitives : List (Except Fault Value)

/-- All comparisons of two values. -/
structure Comparisons where
  /-- The values. -/
  left : Value
  /-- The other value. -/
  right : Value
  /-- Whether they are loosely equal. -/
  loose : Except Fault Bool
  /-- The same, with the values swapped. -/
  reversed : Except Fault Bool

/-- What is known about a scope. -/
structure ScopeView where
  /-- What the scope belongs to. -/
  kind : ScopeKind
  /-- The place of the scope around it in the list, if it is listed. -/
  parent : Option Nat
  /-- The object that stands in for it. -/
  linked : Option ObjectId

/-- What is known about a name. -/
structure NameView where
  /-- The name. -/
  name : String
  /-- Whether it is a variable of the scope. -/
  isVar : Bool
  /-- Whether it is a lexical name of the scope. -/
  isLexical : Bool
  /-- Whether it was hoisted. -/
  isHoisted : Bool
  /-- Whether the scope or one around it declares it. -/
  isBound : Bool
  /-- What it reads as. -/
  value : Except Fault Value

/-- The answer of an operation. -/
inductive Answer where
  | nothing
  | value (v : Value)
  | truth (b : Bool)
  | count (n : Nat)
  | place (i : Option Nat)
  | number (x : Double)
  | text (t : Text)
  | keys (ks : List Text)
  | property (p : Option Property)
  | item (v : Option Value)
  | noFault (a : Answer)
  | options (o : Options)
  | object (o : Option (Object Code))
  | summary (s : Option String)
  | conversions (c : Conversions)
  | comparisons (c : Comparisons)
  | scope (s : ScopeView)
  | globals (scope : Option Nat) (o : ObjectId)
  | names (ns : List NameView)

/-- The value that an answer consists of. -/
def Answer.value? : Answer → Option Value
  | value v => some v
  | item v => v
  | _ => none

end Ecma.Script
