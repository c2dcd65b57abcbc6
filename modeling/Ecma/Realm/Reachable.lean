import Ecma.Realm

/-!
# Reachability

Objects and scopes refer to each other. `Realm.successors` lists what one of them refers to,
`Realm.roots` what a realm always keeps, and `Realm.mark` walks from given nodes along all
references. Handles that lead nowhere are passed over.
-/

namespace Ecma

/-- An object or a scope of a realm. -/
inductive Node where
  | object (o : ObjectId)
  | scope (s : ScopeId)
deriving DecidableEq, Repr

/-- The node of a value, if the value is an object. -/
def Value.node? : Value → Option Node
  | .object o => some (.object o)
  | _ => none

namespace Object

variable {κ : Type}

/-- The values that an object holds. -/
def heldValues (o : Object κ) : List Value :=
  o.properties.values.flatMap Property.references ++ (o.elements.map Array.toList).getD []
    ++ o.slots.values ++ (o.callable.map Callable.captures).getD []
    ++ (o.constructs.map Callable.captures).getD []

/-- The scopes that an object holds. -/
def heldScopes (o : Object κ) : List ScopeId :=
  (o.callable.map Callable.scopes).getD [] ++ (o.constructs.map Callable.scopes).getD []
    ++ o.scope.toList

/-- What an object refers to. -/
def successors (o : Object κ) : List Node :=
  o.prototype.toList.map Node.object ++ o.heldValues.filterMap Value.node?
    ++ o.heldScopes.map Node.scope

end Object

/-- What a scope refers to: the values of its names, the object that stands in for it, and the scope
around it. -/
def Scope.successors (s : Scope) : List Node :=
  s.references.filterMap Value.node? ++ s.linked.toList.map Node.object
    ++ s.outer.head?.toList.map Node.scope

/-- Which objects and scopes have been visited. -/
structure Marks where
  /-- One mark per cell. -/
  objects : Array Bool
  /-- One mark per scope. -/
  scopes : Array Bool

namespace Marks

/-- Sets an unset mark; there is nothing to do where there is none. -/
def set? (marks : Array Bool) (i : Nat) : Option (Array Bool) :=
  if h : i < marks.size then
    if marks[i] then none else some (marks.set i true)
  else
    none

/-- Visits a node for the first time, if it exists and has not been visited. -/
def visit? (m : Marks) : Node → Option Marks
  | .object o => (set? m.objects o.index).map fun objects => { m with objects }
  | .scope s => (set? m.scopes s.index).map fun scopes => { m with scopes }

/-- How many nodes have not been visited. -/
def unvisited (m : Marks) : Nat := m.objects.count false + m.scopes.count false

/-- Whether a cell has been visited. -/
def hasObject (m : Marks) (i : Nat) : Bool := m.objects[i]?.getD false

theorem count_set? {marks marks' : Array Bool} {i : Nat} (h : set? marks i = some marks') :
    marks'.count false < marks.count false := by
  unfold set? at h
  split at h
  · rename_i hi
    split at h
    · simp at h
    · rename_i hm
      simp only [Option.some.injEq] at h
      subst h
      have hf : marks[i] = false := by simpa using hm
      have hpos : 0 < marks.count false := Array.count_pos_iff.2 (hf ▸ Array.getElem_mem hi)
      have hset : (marks.set i true).count false = marks.count false - 1 := by
        rw [Array.count_set, hf]
        rfl
      omega
  · simp at h

/-- Visiting a node leaves fewer to visit. -/
theorem unvisited_visit? {m m' : Marks} {n : Node} (h : m.visit? n = some m') :
    m'.unvisited < m.unvisited := by
  cases n with
  | object o =>
    obtain ⟨objects, ho, rfl⟩ := Option.map_eq_some_iff.1 h
    have := count_set? ho
    simp only [unvisited]
    omega
  | scope s =>
    obtain ⟨scopes, hs, rfl⟩ := Option.map_eq_some_iff.1 h
    have := count_set? hs
    simp only [unvisited]
    omega

/-- Visits all that can be reached from the nodes that wait to be visited. -/
def visitAll (next : Node → List Node) (m : Marks) : List Node → Marks
  | [] => m
  | n :: waiting =>
    match _h : m.visit? n with
    | none => visitAll next m waiting
    | some m' => visitAll next m' (next n ++ waiting)
termination_by waiting => (m.unvisited, waiting.length)
decreasing_by
  · exact Prod.Lex.right _ (by simp)
  · exact Prod.Lex.left _ _ (unvisited_visit? _h)

end Marks

namespace Realm

variable {κ : Type}

/-- What a node refers to. Empty cells refer to nothing. -/
def successors (r : Realm κ) : Node → List Node
  | .object o => ((r.heap.get? o).map Object.successors).getD []
  | .scope s => (r.scopes[s.index]?.map Scope.successors).getD []

/-- What a realm always keeps: its global scope, its global object and its prototypes. -/
def roots (r : Realm κ) : List Node :=
  .scope r.globalScope :: .object r.globalObject :: Intrinsic.all.map fun i => Node.object i.id

/-- The marks of what can be reached from the given nodes. -/
def mark (r : Realm κ) (start : List Node) : Marks :=
  Marks.visitAll r.successors
    ⟨Array.replicate r.heap.cells.size false, Array.replicate r.scopes.size false⟩ start

end Realm

end Ecma
