import Ecma.Script

/-!
# Sessions

A session is what a script remembers besides the realm: its registers, its log and the list of its
scopes. All functions of the script share it.
-/

namespace Ecma.Script

/-- The memory of a script. -/
structure Session where
  /-- The registers. -/
  registers : OrderedMap String Value
  /-- The log, the newest entry first. -/
  log : List Value
  /-- The scopes, in the order in which they were listed. -/
  scopes : Array ScopeId

/-- The receiver and the arguments of the function that runs. -/
structure Frame where
  /-- The receiver. -/
  this : Value
  /-- The arguments. -/
  args : List Value

/-- The frame outside of all functions. -/
def Frame.outermost : Frame := ⟨.undefined, []⟩

namespace Session

/-- The memory of a script at its start. -/
def fresh (globalScope : ScopeId) : Session := ⟨.empty, [], #[globalScope]⟩

/-- Writes a register. -/
def keep (s : Session) (register : String) (v : Value) : Session :=
  { s with registers := s.registers.insert register v }

/-- Adds an entry to the log. -/
def addLog (s : Session) (v : Value) : Session := { s with log := v :: s.log }

/-- Empties the log. -/
def clearLog (s : Session) : Session := { s with log := [] }

/-- Lists a scope, at the last place. -/
def listScope (s : Session) (id : ScopeId) : Session := { s with scopes := s.scopes.push id }

/-- The first place of a scope in the list. -/
def place? (s : Session) (id : ScopeId) : Option Nat := s.scopes.findIdx? (· == id)

end Session

/-- The value of an operand. Registers that were never written and arguments that are missing are
undefined. -/
def Operand.eval (frame : Frame) (s : Session) : Operand → Value
  | literal v => v
  | register name => (s.registers.get? name).getD .undefined
  | receiver => frame.this
  | argument i => frame.args[i]?.getD .undefined

/-- The descriptor with its values. -/
def DescriptorOperand.eval (frame : Frame) (s : Session) (d : DescriptorOperand) : Descriptor :=
  { value := d.value.map (·.eval frame s)
    writable := d.writable
    get := d.get.map (·.eval frame s)
    set := d.set.map (·.eval frame s)
    enumerable := d.enumerable
    configurable := d.configurable }

/-- The fault that is raised. -/
def Raised.eval (frame : Frame) (s : Session) : Raised → Fault
  | fault f => f
  | thrown v => .thrown (v.eval frame s)

/-- The handle of a value, if it is an object. -/
def handle? : Value → Option ObjectId
  | .object o => some o
  | _ => none

end Ecma.Script
