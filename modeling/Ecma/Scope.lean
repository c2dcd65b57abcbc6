import Ecma.OrderedMap
import Ecma.Value

/-!
# Scopes

A scope records lexical names apart from variables, so that one may hide the other. It knows all the
scopes around it, from the nearest on, and possibly an object whose properties stand in for its
variables.
-/

namespace Ecma

/-- The number of a scope in its realm. -/
structure ScopeId where
  /-- The number. -/
  index : Nat
deriving DecidableEq, Repr, Inhabited

/-- What a scope belongs to. -/
inductive ScopeKind where
  | block
  | function
  | global
deriving DecidableEq, Repr

/-- How a name was declared. -/
inductive BindingKind where
  | varName
  | letName
  | constName
  | functionName
deriving DecidableEq, Repr

/-- What a name stands for. -/
structure Binding where
  /-- The value; undefined as long as the declaration has not run. -/
  value : Value
  /-- How the name was declared. -/
  kind : BindingKind
  /-- Whether the declaration has run. -/
  initialized : Bool
deriving DecidableEq, Repr

namespace Binding

/-- A binding with its first value. -/
def init (kind : BindingKind) (v : Value) : Binding := ⟨v, kind, true⟩

/-- A binding whose declaration has not run. -/
def pending (kind : BindingKind) : Binding := ⟨.undefined, kind, false⟩

/-- Whether the binding may be assigned to. -/
def isMutable (b : Binding) : Bool := b.kind != .constName

/-- The binding with another value. -/
def withValue (b : Binding) (v : Value) : Binding := { b with value := v }

end Binding

/-- A scope. -/
structure Scope where
  /-- What it belongs to. -/
  kind : ScopeKind
  /-- The scopes around it, the nearest first. -/
  outer : List ScopeId
  /-- The lexical names. -/
  lexical : OrderedMap String Binding
  /-- The variables. -/
  vars : OrderedMap String Binding
  /-- The variables that exist only because a function of a block was hoisted. -/
  hoisted : List String
  /-- The object whose properties stand in for the variables. -/
  linked : Option ObjectId

namespace Scope

/-- A scope without names. -/
def make (kind : ScopeKind) (outer : List ScopeId) : Scope :=
  ⟨kind, outer, .empty, .empty, [], none⟩

instance : Inhabited Scope := ⟨make .global []⟩

/-- Whether the scope is that of a block. -/
def isBlock (s : Scope) : Bool := s.kind == .block

/-- Whether a declaration of this kind goes to the lexical names. Functions do so in blocks. This is
`binding_is_lexical`. -/
def isLexical (s : Scope) : BindingKind → Bool
  | .letName | .constName => true
  | .functionName => s.isBlock
  | .varName => false

/-- Whether the scope itself declares a name. -/
def declares (s : Scope) (name : String) : Bool := s.lexical.contains name || s.vars.contains name

/-- The scope with a lexical binding. -/
def putLexical (s : Scope) (name : String) (b : Binding) : Scope :=
  { s with lexical := s.lexical.insert name b }

/-- The scope with a variable. -/
def putVar (s : Scope) (name : String) (b : Binding) : Scope :=
  { s with vars := s.vars.insert name b }

/-- The scope with another value for a variable, if it has the variable. -/
def setVar (s : Scope) (name : String) (v : Value) : Scope :=
  { s with vars := s.vars.modify name (·.withValue v) }

/-- The scope with a variable marked as hoisted. -/
def markHoisted (s : Scope) (name : String) : Scope :=
  { s with hoisted := if name ∈ s.hoisted then s.hoisted else name :: s.hoisted }

/-- The scope with a variable no longer marked as hoisted. -/
def unmarkHoisted (s : Scope) (name : String) : Scope :=
  { s with hoisted := s.hoisted.filter (· ≠ name) }

/-- The scope without a variable. -/
def dropVar (s : Scope) (name : String) : Scope :=
  { s with vars := s.vars.erase name }.unmarkHoisted name

/-- The values that the bindings of the scope keep alive. -/
def references (s : Scope) : List Value := (s.lexical.values ++ s.vars.values).map Binding.value

end Scope

end Ecma
