import Ecma.Realm.Reachable

/-!
# Collection

A collection empties every cell whose object cannot be reached from the roots of the realm or from
the extra scopes and values. The cells are emptied in ascending order, so the highest is used again
first.
-/

namespace Ecma

namespace Heap

variable {κ : Type}

/-- The numbers of the cells that hold an object without a mark, in ascending order. -/
def unmarked (h : Heap κ) (m : Marks) : List Nat :=
  (List.range h.cells.size).filter fun i => h.isLive ⟨i⟩ && !m.hasObject i

/-- Empties the cells without a mark. -/
def sweep (h : Heap κ) (m : Marks) : Heap κ :=
  { cells := h.cells.mapIdx fun i cell => if m.hasObject i then cell else none
    free := (h.unmarked m).reverse ++ h.free
    allocations := 0 }

end Heap

namespace Realm

variable {κ : Type}

/-- Collects what cannot be reached, and says how many objects that was. This is
`collect_garbage`. -/
def collect (r : Realm κ) (scopes : List ScopeId) (values : List Value) : Nat × Realm κ :=
  let m := r.mark (r.roots ++ scopes.map Node.scope ++ values.filterMap Value.node?)
  ((r.heap.unmarked m).length, r.withHeap (r.heap.sweep m))

/-- Whether enough objects were made for an automatic collection. -/
def collectionDue (r : Realm κ) : Bool := r.options.collectionThreshold ≤ r.heap.allocations

/-- Collects if a collection is due, and says whether it was. This is `maybe_gc`. -/
def collectIfDue (r : Realm κ) (scopes : List ScopeId) (values : List Value) : Bool × Realm κ :=
  if r.collectionDue then (true, (r.collect scopes values).2) else (false, r)

end Realm

end Ecma
