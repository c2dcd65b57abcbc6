import Ecma.Object

/-!
# The heap

The cells that objects live in. A cell that has been emptied is put on a stack and is the first to
be used again, so handles to the old object may come to mean a new one.
-/

namespace Ecma

/-- The cells of a realm. -/
structure Heap (κ : Type) where
  /-- The cells, with the objects that live in them. -/
  cells : Array (Option (Object κ))
  /-- The numbers of the empty cells, the next one to be used first. -/
  free : List Nat
  /-- How many objects were made since the last collection. -/
  allocations : Nat

namespace Heap

variable {κ : Type}

/-- The heap without cells. -/
def empty : Heap κ := ⟨#[], [], 0⟩

/-- The object in a cell. -/
def get? (h : Heap κ) (o : ObjectId) : Option (Object κ) := h.cells[o.index]?.join

/-- Whether a cell holds an object. -/
def isLive (h : Heap κ) (o : ObjectId) : Bool := (h.get? o).isSome

/-- How many cells hold an object. This is `live_objects`. -/
def liveCount (h : Heap κ) : Nat := h.cells.countP Option.isSome

/-- Puts an object into the cell freed last, or into a new one. This is `allocate_object_slot`. -/
def allocate (h : Heap κ) (o : Object κ) : ObjectId × Heap κ :=
  match h.free with
  | i :: free =>
    let id : ObjectId := ⟨i⟩
    (id, ⟨h.cells.setIfInBounds i (some { o with id }), free, h.allocations + 1⟩)
  | [] =>
    let id : ObjectId := ⟨h.cells.size⟩
    (id, ⟨h.cells.push (some { o with id }), [], h.allocations + 1⟩)

/-- Changes the object in a cell, if there is one. -/
def modify (h : Heap κ) (o : ObjectId) (f : Object κ → Object κ) : Heap κ :=
  { h with cells := h.cells.modify o.index (Option.map f) }

/-- Replaces the object in a cell, if there is one. -/
def replace (h : Heap κ) (o : ObjectId) (data : Object κ) : Heap κ := h.modify o fun _ => data

end Heap

end Ecma
