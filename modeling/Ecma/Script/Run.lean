import Ecma.Engine.Perform
import Ecma.Object.Summary
import Ecma.Realm.Fresh
import Ecma.Script.Answer
import Ecma.Script.Session

/-!
# Running scripts

Every operation of a script is a program, and so is the body of every function. Running a script
runs its operations one after the other in one world; a fault ends an operation, not the script.
-/

namespace Ecma.Script

/-- A program of a script. -/
abbrev Task (α : Type) := Program Code Session α

/-! ## Operands -/

/-- The value of an operand. -/
def eval (frame : Frame) (v : Operand) : Task Value := return v.eval frame (← Program.host)

/-- The values of operands. -/
def evalAll (frame : Frame) (vs : List Operand) : Task (List Value) :=
  return vs.map (·.eval frame (← Program.host))

/-- The handle of an operand that has to be an object. -/
def target (frame : Frame) (v : Operand) : Task ObjectId := do
  match handle? (← eval frame v) with
  | some o => return o
  | none => .fail (.typeError "operand is not an object")

/-- The handle of an operand, or nothing if it is no object. -/
def optionalTarget (frame : Frame) (v : Operand) : Task (Option ObjectId) :=
  return handle? (← eval frame v)

/-- A property key. -/
def keyOf (frame : Frame) : KeyOperand → Task Text
  | .text t => pure t
  | .of v => do Program.request (.toPropertyKey (← eval frame v))

/-- The scope at a place of the list. -/
def scopeAt (i : Nat) : Task ScopeId := do
  match (← Program.host).scopes[i]? with
  | some s => return s
  | none => .fail (.typeError "no scope is listed there")

/-- The scopes at places of the list. -/
def scopesAt : List Nat → Task (List ScopeId)
  | [] => pure []
  | i :: is => do
    let s ← scopeAt i
    let rest ← scopesAt is
    return s :: rest

/-- Lists a scope, again if it is already listed, and answers its first place in the list. -/
def list (s : ScopeId) : Task Answer := do
  Program.modifyHost (·.listScope s)
  return .place ((← Program.host).place? s)

/-- A function with what it holds on to now. -/
def callableOf (frame : Frame) (f : FunctionSpec Op) : Task (Callable Code) := do
  let captures ← evalAll frame f.captures
  let scopes ← scopesAt f.scopes
  return ⟨f.name, f.arity, .code (.body f.body), captures, scopes⟩

/-! ## Repeated operations -/

/-- Makes objects, each with the one before as prototype. -/
def createChain : Nat → Option ObjectId → Task (Option ObjectId)
  | 0, last => pure last
  | n + 1, last => do
    let o ← Program.request (.create .ordinary last)
    createChain n (some o)

/-- Wraps a value in arrays. -/
def nest : Nat → Value → Task Value
  | 0, v => pure v
  | n + 1, v => do
    let o ← Program.request (.createArray #[v])
    nest n (.object o)

/-- Adds nested blocks. -/
def addBlocks : Nat → ScopeId → Task ScopeId
  | 0, s => pure s
  | n + 1, s => do
    let inner ← Program.request (.addScope .block (some s))
    addBlocks n inner

/-! ## Views -/

/-- All conversions of a value, one after the other. -/
def conversions (v : Value) : Task Conversions := do
  let realm ← Program.realm
  let number ← (Program.request (.toNumber v)).attempt
  let text ← (Program.request (.toText v)).attempt
  let key ← (Program.request (.toPropertyKey v)).attempt
  let forText ← (Program.request (.toPrimitive v .text)).attempt
  let forNumber ← (Program.request (.toPrimitive v .number)).attempt
  let primitive ← (Program.request (.toPrimitive v .none)).attempt
  return ⟨v, realm.typeOf v, number, text, key, [forText, forNumber, primitive]⟩

/-- All comparisons of two values; those that convert run one after the other. -/
def comparisons (a b : Value) : Task Comparisons := do
  let loose ← (Program.request (.looselyEqual a b)).attempt
  let reversed ← (Program.request (.looselyEqual b a)).attempt
  return ⟨a, b, loose, reversed⟩

/-- What is known about a scope. -/
def scopeView (s : ScopeId) : Task ScopeView := do
  let scope := (← Program.realm).scope s
  let session ← Program.host
  return ⟨scope.kind, scope.outer.head?.bind session.place?, scope.linked⟩

/-- What is known about a name. -/
def nameView (s : ScopeId) (name : String) : Task NameView := do
  let realm ← Program.realm
  let scope := realm.scope s
  let value ← (Program.request (.getBinding s name)).attempt
  return ⟨name, scope.vars.contains name, scope.lexical.contains name, name ∈ scope.hoisted,
    realm.hasBinding s name, value⟩

/-- What is known about names, one after the other. -/
def nameViews (s : ScopeId) : List String → Task (List NameView)
  | [] => pure []
  | name :: names => do
    let view ← nameView s name
    let rest ← nameViews s names
    return view :: rest

/-- Defines the own property of one object on another one, and says whether there was one. -/
def copyProperty (o : ObjectId) (key : Text) (other : ObjectId) : Task Bool := do
  match ← Program.read (·.ownProperty? o key) with
  | some p => do
    Program.request (.define other key (.ofProperty p))
    return true
  | none => return false

/-- Keys in the order of their units. -/
def sortKeys (ks : List Text) : List Text := ks.mergeSort fun a b => a.units ≤ b.units

/-! ## Operations -/

/-- The program of an operation. Where there is a key, it comes first: what its conversion writes to
registers is seen by the other operands. -/
def Op.program (frame : Frame) : Op → Task Answer
  | value v => return .value (← eval frame v)
  | log v => do
    let v ← eval frame v
    Program.modifyHost (·.addLog v)
    return .nothing
  | raise r => do .fail (r.eval frame (← Program.host))
  | catching op => do
    match ← (op.program frame).attempt with
    | .ok a => return .noFault a
    | .error f => return .value (← Program.request (.errorValue f))
  | keep register op => do
    let a ← op.program frame
    match a.value? with
    | some v => do
      Program.modifyHost (·.keep register v)
      return a
    | none => return a
  | intrinsic i => return .value (.object i.id)
  | globalObject => return .value (.object (← Program.realm).globalObject)
  | create kind prototype => do
    let proto ← optionalTarget frame prototype
    return .value (.object (← Program.request (.create kind proto)))
  | createArray elements => do
    let elements ← evalAll frame elements
    return .value (.object (← Program.request (.createArray elements.toArray)))
  | createFunction f => do
    let f ← callableOf frame f
    return .value (.object (← Program.request (.createFunction f)))
  | createConstructor f g => do
    let f ← callableOf frame f
    let g ← callableOf frame g
    return .value (.object (← Program.request (.createConstructor f g)))
  | createError kind message =>
    return .value (.object (← Program.request (.createError kind message)))
  | createIterator items =>
    return .value (.object (← Program.request (.createIterator (.items items))))
  | createSymbol description =>
    return .value (.symbol (← Program.request (.createSymbol description)))
  | createChain length root => do
    let last ← Script.createChain length (← optionalTarget frame root)
    return .value (last.elim .null .object)
  | nest v depth => return .value (← Script.nest depth (← eval frame v))
  | options => return .options (← Program.realm).options
  | get o key receiver => do
    let key ← keyOf frame key
    let o ← target frame o
    let receiver ← match receiver with
      | some v => eval frame v
      | none => pure (.object o)
    return .value (← Program.request (.get o key receiver))
  | set o key v => do
    let key ← keyOf frame key
    let o ← target frame o
    let v ← eval frame v
    Program.request (.set o key v)
    return .nothing
  | define o key d => do
    let key ← keyOf frame key
    let o ← target frame o
    Program.request (.define o key (d.eval frame (← Program.host)))
    return .nothing
  | copyProperty o key other => do
    let key ← keyOf frame key
    let o ← target frame o
    let other ← target frame other
    return .truth (← Script.copyProperty o key other)
  | writeHidden o key v => do
    let key ← keyOf frame key
    let o ← target frame o
    let v ← eval frame v
    Program.request (.writeHidden o key v)
    return .nothing
  | ownProperty o key => do
    let key ← keyOf frame key
    let o ← target frame o
    return .property (← Program.read (·.ownProperty? o key))
  | hasOwnProperty o key => do
    let key ← keyOf frame key
    let o ← target frame o
    return .truth (← Program.read (·.hasOwnProperty o key))
  | hasProperty o key => do
    let key ← keyOf frame key
    let o ← target frame o
    return .truth (← Program.read (·.hasProperty o key))
  | delete o key => do
    let key ← keyOf frame key
    let o ← target frame o
    return .truth (← Program.request (.delete o key))
  | ownKeys o sorted => do
    let o ← target frame o
    let ks ← Program.read (·.ownKeys o)
    return .keys (if sorted then sortKeys ks else ks)
  | setPrototype o proto => do
    let o ← target frame o
    let proto ← optionalTarget frame proto
    return .truth (← Program.request (.setPrototype o proto))
  | preventExtensions o => do
    let o ← target frame o
    Program.request (.preventExtensions o)
    return .nothing
  | isExtensible o => do
    let o ← target frame o
    return .truth (← Program.read (·.isExtensible o))
  | writePrototype o proto => do
    let o ← target frame o
    let proto ← optionalTarget frame proto
    Program.request (.writePrototype o proto)
    return .nothing
  | writeSlot o name v => do
    let o ← target frame o
    let v ← eval frame v
    Program.request (.writeSlot o name v)
    return .nothing
  | writeElements o elements => do
    let o ← target frame o
    let session ← Program.host
    let elements := elements.map fun vs => (vs.map (·.eval frame session)).toArray
    Program.request (.writeElements o elements)
    return .nothing
  | inspect o => do
    let o ← target frame o
    return .object ((← Program.realm).heap.get? o)
  | summarize o => do
    let o ← target frame o
    return .summary (((← Program.realm).heap.get? o).map Object.summary)
  | isCallable v => do
    let v ← eval frame v
    return .truth ((← Program.realm).isCallable v)
  | call f this args => do
    let f ← eval frame f
    let this ← eval frame this
    let args ← evalAll frame args
    return .value (← Program.request (.call f this args))
  | construct f args => do
    let f ← eval frame f
    let args ← evalAll frame args
    return .value (← Program.request (.construct f args))
  | iteratorNext o => do
    let o ← target frame o
    return .item (← Program.request (.iteratorNext o))
  | convert v => return .conversions (← conversions (← eval frame v))
  | toText v => return .value (.string (← Program.request (.toText (← eval frame v))))
  | toNumber v => return .number (← Program.request (.toNumber (← eval frame v)))
  | toPropertyKey v => return .text (← Program.request (.toPropertyKey (← eval frame v)))
  | toPrimitive v hint => return .value (← Program.request (.toPrimitive (← eval frame v) hint))
  | compare a b => do
    let a ← eval frame a
    let b ← eval frame b
    return .comparisons (← comparisons a b)
  | looselyEqual a b => do
    let a ← eval frame a
    let b ← eval frame b
    return .truth (← Program.request (.looselyEqual a b))
  | addScope kind none => do list (← Program.request (.addScope kind none))
  | addScope kind (some parent) => do
    let parent ← scopeAt parent
    list (← Program.request (.addScope kind (some parent)))
  | addBlocks parent length => do
    let parent ← scopeAt parent
    list (← Script.addBlocks length parent)
  | inspectScope s => return .scope (← scopeView (← scopeAt s))
  | functionScope s => do
    let s ← scopeAt s
    let f := (← Program.realm).functionScope s
    return .place ((← Program.host).place? f)
  | globals => do
    let realm ← Program.realm
    return .globals ((← Program.host).place? realm.globalScope) realm.globalObject
  | createUninitialized s name kind => do
    let s ← scopeAt s
    Program.request (.createUninitialized s name kind)
    return .nothing
  | declare s name kind v => do
    let s ← scopeAt s
    let v ← eval frame v
    Program.request (.declare s name kind v)
    return .nothing
  | getBinding s name => do
    let s ← scopeAt s
    return .value (← Program.request (.getBinding s name))
  | setBinding s name v => do
    let s ← scopeAt s
    let v ← eval frame v
    Program.request (.setBinding s name v)
    return .nothing
  | setInScope s name v => do
    let s ← scopeAt s
    let v ← eval frame v
    Program.request (.setInScope s name v)
    return .nothing
  | declareVar s name v deletable => do
    let s ← scopeAt s
    let v ← eval frame v
    Program.request (.declareVar s name v deletable)
    return .nothing
  | hoistFunction s name v => do
    let s ← scopeAt s
    let v ← eval frame v
    return .truth (← Program.request (.hoistFunction s name v))
  | link s o => do
    let s ← scopeAt s
    let o ← target frame o
    Program.request (.link s o)
    return .nothing
  | defineBuiltin name v => do
    let v ← eval frame v
    Program.request (.defineBuiltin name v)
    return .nothing
  | probe s names => do
    let s ← scopeAt s
    return .names (← nameViews s names)
  | collect scopes values => do
    let scopes ← scopesAt scopes
    let values ← evalAll frame values
    return .count (← Program.request (.collect scopes values))
  | collectIfDue scopes values => do
    let scopes ← scopesAt scopes
    let values ← evalAll frame values
    return .truth (← Program.request (.collectIfDue scopes values))
  | liveCount => return .count (← Program.realm).heap.liveCount
  | isLive o => do
    let o ← target frame o
    return .truth ((← Program.realm).heap.isLive o)

/-! ## Functions and producers -/

/-- Runs operations up to the first fault. -/
def runOps (frame : Frame) : List Op → Task Unit
  | [] => pure ()
  | op :: ops => do
    let _ ← op.program frame
    runOps frame ops

/-- Runs the operations of a body and gives its result. -/
def Body.program (b : Body Op) (frame : Frame) : Task Value := do
  runOps frame b.ops
  match b.result with
  | some v => eval frame v
  | none => return .undefined

/-- Makes an item, or finds that there is none. -/
def ItemSpec.program (item : ItemSpec Op) : Task (Option Value) := do
  let v ← item.body.program .outermost
  return if item.done then none else some v

/-- What the functions and producers of scripts do. -/
def library : Library Code Session where
  apply
    | .body b, this, args => b.program ⟨this, args⟩
    | .items _, _, _ => pure .undefined
  produce
    | .items items, i => (items[i]?).elim (pure none) ItemSpec.program
    | .body _, _ => pure none

/-! ## Runs -/

/-- What an operation ended with, and the entries it made in the log, the oldest first. -/
structure Report where
  /-- How it ended. -/
  outcome : Outcome Answer
  /-- The entries of the log. -/
  log : List Value

/-- How deep calls and conversions may nest. -/
def maxDepth : Nat := 100000

/-- Runs an operation of a script. -/
def Op.run (op : Op) (w : World Code Session) : Report × World Code Session :=
  let (outcome, w) := library.run maxDepth (op.program .outermost) w
  (⟨outcome, w.host.log.reverse⟩, { w with host := w.host.clearLog })

/-- Runs the operations of a script one after the other. -/
def runAll (w : World Code Session) : List Op → List Report
  | [] => []
  | op :: ops =>
    let (report, w) := op.run w
    report :: runAll w ops

/-- Runs a script in a fresh realm. -/
def run (options : Options) (ops : List Op) : List Report :=
  let realm := Realm.fresh options
  runAll ⟨realm, .fresh realm.globalScope⟩ ops

end Ecma.Script
