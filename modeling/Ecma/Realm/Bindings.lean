import Ecma.Realm.Properties

/-!
# Names in a realm

Names are resolved from a scope outwards. In each scope the lexical names come first, then the
object that stands in for it, and its variables last. As with properties, nothing here runs user
code.
-/

namespace Ecma

namespace Binding

/-- The binding after an assignment to it. -/
def assign (b : Binding) (name : String) (v : Value) : Except Fault Binding :=
  if !b.initialized then .error (.uninitialized name)
  else if !b.isMutable then .error (.constAssignment name)
  else .ok (b.withValue v)

end Binding

namespace Realm

variable {κ : Type}

/-! ## Declarations -/

/-- Registers a lexical name whose declaration has not run. -/
def createUninitialized (r : Realm κ) (s : ScopeId) (name : String) (kind : BindingKind) :
    Realm κ :=
  r.modifyScope s fun scope => scope.putLexical name (.pending kind)

/-- Whether a lexical name may be declared over its binding: its declaration has not run, or sloppy
code repeats a function in a block. -/
def mayRedeclare (r : Realm κ) (existing : Binding) (kind : BindingKind) : Bool :=
  !existing.initialized
    || (!r.options.strict && existing.kind == .functionName && kind == .functionName)

/-- The variable after a declaration. Only a function changes how it counts as declared. -/
def redeclareVar (existing : Option Binding) (kind : BindingKind) (v : Value) : Binding :=
  match existing with
  | none => .init kind v
  | some b => ⟨v, if kind = .functionName then kind else b.kind, true⟩

/-- Declares a name in a scope. -/
def declare (r : Realm κ) (s : ScopeId) (name : String) (kind : BindingKind) (v : Value) :
    Except Fault Unit × Realm κ :=
  let scope := r.scope s
  if scope.isLexical kind then
    if (scope.lexical.get? name).all fun b => r.mayRedeclare b kind then
      (.ok (), r.modifyScope s fun scope => scope.putLexical name (.init kind v))
    else
      (.error (.alreadyDeclared name), r)
  else
    let b := redeclareVar (scope.vars.get? name) kind v
    let r := r.modifyScope s fun scope => (scope.putVar name b).unmarkHoisted name
    r.publishLinked scope.linked name v

/-- Declares a variable unless its scope has the name already. A property of that name on the object
that stands in for the scope stays as it is and gives the variable its value; else one is made. This
is `declare_var_no_duplicate`. -/
def declareVar (r : Realm κ) (s : ScopeId) (name : String) (v : Value) (deletable : Bool) :
    Except Fault Unit × Realm κ :=
  let scope := r.scope s
  if scope.declares name then (.ok (), r)
  else
    let r := r.modifyScope s fun scope => scope.putVar name (.init .varName v)
    match scope.linked with
    | none => (.ok (), r)
    | some o =>
      match r.heap.get? o with
      | none => (.error (.collected o), r)
      | some data =>
        let key := Text.ofString name
        match data.own? key with
        | some p =>
          match p.value? with
          | some current => (.ok (), r.modifyScope s fun scope => scope.setVar name current)
          | none => (.ok (), r)
        | none => (.ok (), r.replaceObject o (data.putProperty key (.data v true true deletable)))

/-- Assigns to a name in exactly this scope, as a new variable if need be. This is
`set_in_current_scope`. -/
def setInScope (r : Realm κ) (s : ScopeId) (name : String) (v : Value) :
    Except Fault Unit × Realm κ :=
  let scope := r.scope s
  match scope.lexical.get? name with
  | some b =>
    match b.assign name v with
    | .ok b => (.ok (), r.modifyScope s fun scope => scope.putLexical name b)
    | .error f => (.error f, r)
  | none =>
    match (scope.vars.get? name).elim (.ok (.init .varName v)) (·.assign name v) with
    | .ok b =>
      let r := r.modifyScope s fun scope => scope.putVar name b
      r.publishLinked scope.linked name v
    | .error f => (.error f, r)

/-! ## Hoisting of functions in blocks -/

/-- The nearest scope that is not a block's, unless a scope on the way to it, or itself, has the
name as a lexical one. -/
def hoistTarget? (r : Realm κ) (name : String) : List ScopeId → Option ScopeId
  | [] => none
  | s :: outer =>
    let scope := r.scope s
    if scope.lexical.contains name then none
    else if scope.isBlock then r.hoistTarget? name outer
    else some s

/-- Makes a function of a block a variable of the nearest scope that is not a block's, and says
whether it did. This is `declare_annex_b_function`. -/
def hoistFunction (r : Realm κ) (block : ScopeId) (name : String) (v : Value) :
    Except Fault Bool × Realm κ :=
  if r.options.strict || !r.options.hoisting then (.ok false, r)
  else
    match r.hoistTarget? name (r.scope block).outer with
    | none => (.ok false, r)
    | some s =>
      let scope := r.scope s
      let r := r.modifyScope s fun scope =>
        if scope.vars.contains name then scope.setVar name v
        else (scope.putVar name (.init .varName v)).markHoisted name
      let (result, r) := r.publishLinked scope.linked name v
      (result.map fun _ => true, r)

/-! ## Resolution -/

/-- Resolves a name in scopes from the inside out. -/
def resolveIn (r : Realm κ) (name : String) : List ScopeId → Except Fault Lookup
  | [] => .error (.notDefined name)
  | s :: outer =>
    let scope := r.scope s
    match scope.lexical.get? name with
    | some b => if b.initialized then .ok (.value b.value) else .error (.uninitialized name)
    | none =>
      let here : Except Fault Lookup :=
        match scope.vars.get? name with
        | some b => .ok (.value b.value)
        | none => r.resolveIn name outer
      match scope.linked with
      | none => here
      | some o => do
        if ← r.hasProperty o (.ofString name) then r.lookup o (.ofString name) (.object o)
        else here

/-- Resolves a name from a scope outwards. This is `get_binding` up to the call of a getter. -/
def resolve (r : Realm κ) (s : ScopeId) (name : String) : Except Fault Lookup :=
  r.resolveIn name (r.chain s)

/-- Assigns to a name in scopes from the inside out. -/
def assignIn (r : Realm κ) (name : String) (v : Value) : List ScopeId → Except Fault (Assignment κ)
  | [] => .error (.notDefined name)
  | s :: outer =>
    let scope := r.scope s
    match scope.lexical.get? name with
    | some b =>
      (b.assign name v).map fun b => .stored (r.modifyScope s fun scope => scope.putLexical name b)
    | none =>
      let here : Except Fault (Assignment κ) :=
        match scope.vars.get? name with
        | some b =>
          (b.assign name v).map fun b => .stored (r.modifyScope s fun scope => scope.putVar name b)
        | none => r.assignIn name v outer
      match scope.linked with
      | none => here
      | some o => do
        if ← r.hasProperty o (.ofString name) then r.assign o (.ofString name) v else here

/-- Assigns to a name found from a scope outwards. No name is ever made by it. This is `set_binding`
up to the call of a setter. -/
def assignName (r : Realm κ) (s : ScopeId) (name : String) (v : Value) :
    Except Fault (Assignment κ) := r.assignIn name v (r.chain s)

/-- Whether a scope or one around it declares a name. -/
def hasBinding (r : Realm κ) (s : ScopeId) (name : String) : Bool :=
  (r.chain s).any fun s => (r.scope s).declares name

/-- The nearest scope that is not a block's; the outermost one if all are. -/
def functionScopeIn (r : Realm κ) (s : ScopeId) : List ScopeId → ScopeId
  | [] => s
  | parent :: outer => if (r.scope s).isBlock then r.functionScopeIn parent outer else s

/-- The scope that variables declared in a scope belong to. This is `get_function_scope`. -/
def functionScope (r : Realm κ) (s : ScopeId) : ScopeId := r.functionScopeIn s (r.scope s).outer

end Realm

end Ecma
