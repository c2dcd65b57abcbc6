import Ecma.Proofs.Collection
import Ecma.Proofs.Outcome
import Ecma.Proofs.Step
import Mathlib.Data.List.Nodup
import Mathlib.Tactic.Set

/-!
# The cells of the heap

A heap is well formed if its free cells are exactly its empty ones, each on the stack once, and
every object knows the cell it lives in. Whatever a request does, it changes the heap by the three
moves of `Heap.Move` only, each of which keeps the heap well formed; so no cell is handed out while
an object lives in it, in any realm that can be met (`heap_wellFormed_of_reached`).
-/

namespace Ecma

open Relation

variable {κ : Type}

namespace Heap

/-- The free cells are the empty ones, without repetition, and objects carry their own handle. -/
structure WellFormed (h : Heap κ) : Prop where
  nodup : h.free.Nodup
  mem_free : ∀ i, i ∈ h.free ↔ h.cells[i]? = some none
  id_eq : ∀ o data, h.get? o = some data → data.id = o

/-- How a heap changes: an object gets a cell, an object is changed in place and keeps its handle,
or cells are swept. -/
inductive Move : Heap κ → Heap κ → Prop where
  | allocate (h : Heap κ) (data : Object κ) : Move h (h.allocate data).2
  | modify (h : Heap κ) (o : ObjectId) (f : Object κ → Object κ)
      (hf : ∀ data, h.get? o = some data → (f data).id = data.id) : Move h (h.modify o f)
  | sweep (h : Heap κ) (m : Marks) : Move h (h.sweep m)

/-- What declaring a name with a value does to a heap: nothing, or one object gets a property, which
has that value if it has one. -/
inductive Stores (h : Heap κ) (v : Value) : Heap κ → Prop where
  | nothing : Stores h v h
  | property {o : ObjectId} {data : Object κ} {key : Text} {p : Property}
      (hd : h.get? o = some data) (hp : ∀ u, p.value? = some u → u = v) :
      Stores h v (h.replace o (data.putProperty key p))

/-! ## Reading the heap after a change -/

theorem get?_eq_some_iff {h : Heap κ} {o : ObjectId} {data : Object κ} :
    h.get? o = some data ↔ h.cells[o.index]? = some (some data) := by
  unfold get?
  cases h.cells[o.index]? <;> simp

theorem index_inj {o p : ObjectId} : o.index = p.index ↔ o = p := by
  cases o; cases p; simp

theorem get?_modify (h : Heap κ) (o p : ObjectId) (f : Object κ → Object κ) :
    (h.modify o f).get? p = if p = o then (h.get? o).map f else h.get? p := by
  simp only [get?, modify, Array.getElem?_modify]
  by_cases hp : p = o
  · subst hp
    cases h.cells[p.index]? <;> simp
  · have hi : ¬o.index = p.index := fun e => hp (index_inj.1 e).symm
    simp [hp, hi]

theorem get?_replace (h : Heap κ) (o p : ObjectId) (data : Object κ) :
    (h.replace o data).get? p = if p = o then (h.get? o).map fun _ => data else h.get? p :=
  get?_modify h o p _

/-- An allocation puts the new object into one cell and leaves the others alone. -/
theorem get?_allocate_cases (h : Heap κ) (data : Object κ) (o : ObjectId) :
    (h.allocate data).2.get? o = h.get? o ∨
      ∃ id, (h.allocate data).2.get? o = some { data with id := id } := by
  unfold allocate
  split
  · rename_i i free hfree
    simp only [get?, Array.getElem?_setIfInBounds]
    split
    · split
      · exact Or.inr ⟨_, rfl⟩
      · rename_i hi hlt
        left
        rw [Array.getElem?_eq_none (by omega)]
    · exact Or.inl rfl
  · simp only [get?, Array.getElem?_push]
    split
    · exact Or.inr ⟨_, rfl⟩
    · exact Or.inl rfl

theorem modify_eq_replace {h : Heap κ} {o : ObjectId} {data : Object κ} (hd : h.get? o = some data)
    (f : Object κ → Object κ) : h.modify o f = h.replace o (f data) := by
  have hcells : h.cells.modify o.index (Option.map f) =
      h.cells.modify o.index (Option.map fun _ => f data) := by
    refine Array.ext (by simp) fun i hi _ => ?_
    simp only [Array.size_modify] at hi
    simp only [Array.getElem_modify]
    split
    · rename_i hio
      subst hio
      rw [get?_eq_some_iff, Array.getElem?_eq_getElem hi] at hd
      rw [Option.some.inj hd]
      rfl
    · rfl
  simp only [replace, modify, hcells]

theorem modify_of_get?_none {h : Heap κ} {o : ObjectId} (hd : h.get? o = none)
    (f : Object κ → Object κ) : h.modify o f = h := by
  have hcells : h.cells.modify o.index (Option.map f) = h.cells := by
    refine Array.ext (by simp) fun i _ hi => ?_
    simp only [Array.getElem_modify]
    split
    · rename_i hio
      subst hio
      rw [get?, Array.getElem?_eq_getElem hi, Option.join_some] at hd
      rw [hd]
      rfl
    · rfl
  simp only [modify, hcells]

variable {h : Heap κ}

/-- The cell that an object gets is empty or new. -/
theorem WellFormed.allocate_fresh (hh : h.WellFormed) (data : Object κ) :
    h.get? (h.allocate data).1 = none := by
  unfold allocate
  split
  · rename_i i free hf
    have hi : h.cells[i]? = some none := (hh.mem_free i).1 (by rw [hf]; exact List.mem_cons_self)
    simp [get?, hi]
  · simp [get?]

theorem WellFormed.get?_allocate (hh : h.WellFormed) (data : Object κ) (o : ObjectId) :
    (h.allocate data).2.get? o =
      if o = (h.allocate data).1 then some { data with id := (h.allocate data).1 }
      else h.get? o := by
  unfold allocate
  split
  · rename_i i free hf
    have hi : h.cells[i]? = some none := (hh.mem_free i).1 (by rw [hf]; exact List.mem_cons_self)
    have hlt : i < h.cells.size := (Array.getElem?_eq_some_iff.1 hi).1
    by_cases ho : o = ⟨i⟩
    · subst ho
      simp [get?, hlt]
    · have hne : ¬i = o.index := fun e => ho (by cases o; simp [e])
      simp [get?, ho, hne]
  · by_cases ho : o = ⟨h.cells.size⟩
    · subst ho
      simp [get?]
    · have hne : ¬o.index = h.cells.size := fun e => ho (by cases o; simp at e; simp [e])
      simp [get?, ho, Array.getElem?_push, hne]

/-! ## Moves keep the heap well formed -/

theorem wellFormed_empty : (Heap.empty : Heap κ).WellFormed :=
  ⟨List.nodup_nil, fun i => by simp [empty], fun o data hd => by simp [empty, get?] at hd⟩

/-- Taking the last freed cell, or a new one, keeps the heap well formed. -/
theorem WellFormed.allocate (hh : h.WellFormed) (data : Object κ) :
    (h.allocate data).2.WellFormed := by
  refine ⟨?_, fun i => ?_, fun o d hd => ?_⟩
  · unfold Heap.allocate
    split
    · rename_i i free hf
      have hn := hh.nodup
      rw [hf] at hn
      exact (List.nodup_cons.1 hn).2
    · exact List.nodup_nil
  · unfold Heap.allocate
    split
    · rename_i j free hf
      have hn := hh.nodup
      rw [hf] at hn
      have hj : j ∉ free := (List.nodup_cons.1 hn).1
      have hmem := hh.mem_free i
      rw [hf, List.mem_cons] at hmem
      show i ∈ free ↔ (h.cells.setIfInBounds j _)[i]? = some none
      rw [Array.getElem?_setIfInBounds]
      by_cases hi : j = i
      · subst hi
        have hlt : j < h.cells.size := (Array.getElem?_eq_some_iff.1 (hmem.1 (Or.inl rfl))).1
        simp [hj, hlt]
      · have hi' : ¬i = j := fun e => hi e.symm
        rw [if_neg hi, ← hmem]
        simp [hi']
    · rename_i hf
      have hmem := hh.mem_free i
      rw [hf] at hmem
      show i ∈ [] ↔ (h.cells.push _)[i]? = some none
      rw [Array.getElem?_push]
      split
      · simp
      · exact hmem
  · rw [hh.get?_allocate] at hd
    split at hd
    · rename_i ho
      rw [← Option.some.inj hd, ho]
    · exact hh.id_eq o d hd

/-- Changing an object in place keeps the heap well formed. -/
theorem WellFormed.modify (hh : h.WellFormed) {o : ObjectId} {f : Object κ → Object κ}
    (hf : ∀ data, h.get? o = some data → (f data).id = data.id) : (h.modify o f).WellFormed := by
  refine ⟨hh.nodup, fun i => ?_, fun p d hd => ?_⟩
  · show i ∈ h.free ↔ (h.cells.modify o.index (Option.map f))[i]? = some none
    rw [hh.mem_free, Array.getElem?_modify]
    split
    · cases h.cells[i]? <;> simp
    · rfl
  · rw [get?_modify] at hd
    split at hd
    · rename_i hp
      obtain ⟨data, hdata, rfl⟩ := Option.map_eq_some_iff.1 hd
      rw [hf data hdata, hh.id_eq o data hdata, hp]
    · exact hh.id_eq p d hd

/-- The swept cells were occupied, so sweeping frees none of them twice. -/
theorem WellFormed.sweep (hh : h.WellFormed) (m : Marks) : (h.sweep m).WellFormed := by
  have hocc : ∀ i, i ∈ h.unmarked m → i ∉ h.free := by
    intro i hi hfree
    obtain ⟨data, hd⟩ := isLive_iff.1 (mem_unmarked_iff.1 hi).1
    have hnone := (hh.mem_free i).1 hfree
    rw [get?_eq_some_iff.1 hd] at hnone
    cases hnone
  refine ⟨?_, fun i => ?_, fun o d hd => ?_⟩
  · refine List.nodup_append.2 ⟨?_, hh.nodup, fun i hi j hj e => ?_⟩
    · exact List.nodup_reverse.2 (List.nodup_range.sublist List.filter_sublist)
    · exact hocc i (List.mem_reverse.1 hi) (e ▸ hj)
  · show i ∈ (h.unmarked m).reverse ++ h.free ↔ _
    rw [List.mem_append, List.mem_reverse, hh.mem_free, mem_unmarked_iff,
      ← Bool.not_eq_true ((h.sweep m).isLive ⟨i⟩), isLive_sweep_iff]
    simp only [Heap.sweep, Array.getElem?_mapIdx]
    cases hc : h.cells[i]? with
    | none => simp [isLive, get?, hc]
    | some cell =>
      have hl : h.isLive ⟨i⟩ = cell.isSome := by simp [isLive, get?, hc]
      cases cell <;> cases hm : m.hasObject i <;> simp [hl]
  · rw [get?_sweep] at hd
    split at hd
    · exact hh.id_eq o d hd
    · cases hd

theorem WellFormed.move (hh : h.WellFormed) {h' : Heap κ} (hm : Move h h') : h'.WellFormed := by
  cases hm with
  | allocate data => exact hh.allocate data
  | modify o f hf => exact hh.modify hf
  | sweep m => exact hh.sweep m

theorem WellFormed.moves (hh : h.WellFormed) {h' : Heap κ} (hm : ReflTransGen Move h h') :
    h'.WellFormed := by
  induction hm with
  | refl => exact hh
  | tail _ hm ih => exact ih.move hm

theorem moves_replace {o : ObjectId} {data data' : Object κ} (hd : h.get? o = some data)
    (hid : data'.id = data.id) : ReflTransGen Move h (h.replace o data') := by
  refine .single (.modify h o _ fun d hd' => ?_)
  rw [hd] at hd'
  rw [← Option.some.inj hd', hid]

theorem Stores.moves {h' : Heap κ} {v : Value} (hs : h.Stores v h') : ReflTransGen Move h h' := by
  cases hs with
  | nothing => exact .refl
  | property hd hp => exact moves_replace hd rfl

/-! ## Counting -/

theorem liveCount_add_emptyCount (h : Heap κ) :
    h.liveCount + h.cells.countP Option.isNone = h.cells.size := by
  have hsplit : h.cells.size = h.cells.countP Option.isSome +
      h.cells.countP (fun cell => decide ¬cell.isSome = true) := Array.size_eq_countP_add_countP
  have hnone : h.cells.countP (fun cell => decide ¬cell.isSome = true) =
      h.cells.countP Option.isNone := by
    congr 1
    funext cell
    cases cell <;> rfl
  rw [hnone] at hsplit
  exact hsplit.symm

/-- The cells of a heap, read off one after the other. -/
theorem toList_cells (h : Heap κ) :
    h.cells.toList = (List.range h.cells.size).map fun i => h.cells[i]?.getD none := by
  refine List.ext_getElem (by simp) fun i hi _ => ?_
  simp at hi
  simp [hi]

theorem WellFormed.length_free (hh : h.WellFormed) :
    h.free.length = h.cells.countP Option.isNone := by
  have hperm : h.free.Perm
      ((List.range h.cells.size).filter fun i => (h.cells[i]?.getD none).isNone) := by
    refine (List.perm_ext_iff_of_nodup hh.nodup
      (List.nodup_range.sublist List.filter_sublist)).2 fun i => ?_
    rw [hh.mem_free, List.mem_filter, List.mem_range]
    constructor
    · intro hi
      exact ⟨(Array.getElem?_eq_some_iff.1 hi).1, by simp [hi]⟩
    · rintro ⟨hlt, hi⟩
      simp only [Array.getElem?_eq_getElem hlt, Option.getD_some, Option.isNone_iff_eq_none] at hi
      rw [Array.getElem?_eq_getElem hlt, hi]
  rw [hperm.length_eq, ← Array.countP_toList, toList_cells, List.countP_map,
    List.countP_eq_length_filter]
  rfl

/-- The cells that are not free hold an object. -/
theorem WellFormed.liveCount_add_length_free (hh : h.WellFormed) :
    h.liveCount + h.free.length = h.cells.size := by
  rw [hh.length_free, liveCount_add_emptyCount]

end Heap

/-! ## Steps move the heap -/

namespace Realm

open Heap (Move)

theorem stores_publishLinked (r : Realm κ) (linked : Option ObjectId) (name : String) (v : Value) :
    r.heap.Stores v (r.publishLinked linked name v).2.heap := by
  unfold publishLinked
  split
  · unfold publish
    split
    · exact .nothing
    · rename_i data hd
      refine .property hd fun u hu => ?_
      split at hu
      · rename_i p _
        cases p with
        | data w e c => exact (Option.some.inj hu).symm
        | accessor g s e c => cases hu
      · exact (Option.some.inj hu).symm
  · exact .nothing

theorem moves_assign {r r' : Realm κ} {o : ObjectId} {key : Text} {v : Value}
    (h : r.assign o key v = .ok (.stored r')) : ReflTransGen Move r.heap r'.heap := by
  obtain ⟨data, data', hd, ha, rfl⟩ := assign_eq_stored h
  rw [heap_sync]
  refine Heap.moves_replace hd ?_
  rcases Object.assign_eq_object ha with ⟨p, -, rfl⟩ | ⟨-, elements, rfl, -⟩ <;> rfl

theorem move_modifyObject (r : Realm κ) (o : ObjectId) {f : Object κ → Object κ}
    (hf : ∀ data, (f data).id = data.id) : Move r.heap (r.modifyObject o f).heap :=
  .modify _ o f fun data _ => hf data

theorem moves_createConstructor (r : Realm κ) (call construct : Callable κ) :
    ReflTransGen Move r.heap (r.createConstructor call construct).2.heap := by
  have h1 : Move r.heap (r.createFunction call).2.heap := .allocate _ (functionObject call)
  rcases hf : r.createFunction call with ⟨func, r1⟩
  have h2 : Move r1.heap r1.createObject.2.heap := .allocate _ (.make .ordinary _)
  rcases hp : r1.createObject with ⟨proto, r2⟩
  rw [hf] at h1
  rw [hp] at h2
  simp only [createConstructor, hf, hp]
  refine (((ReflTransGen.single h1).tail h2).tail (move_modifyObject r2 proto ?_)).tail
    (move_modifyObject _ func ?_)
  · exact fun _ => rfl
  · exact fun _ => rfl

theorem stores_declare (r : Realm κ) (s : ScopeId) (name : String) (kind : BindingKind)
    (v : Value) : r.heap.Stores v (r.declare s name kind v).2.heap := by
  unfold declare
  dsimp only
  split
  · split <;> exact .nothing
  · exact stores_publishLinked (r.modifyScope s _) _ _ _

theorem stores_setInScope (r : Realm κ) (s : ScopeId) (name : String) (v : Value) :
    r.heap.Stores v (r.setInScope s name v).2.heap := by
  unfold setInScope
  dsimp only
  split
  · split <;> exact .nothing
  · split
    · exact stores_publishLinked (r.modifyScope s _) _ _ _
    · exact .nothing

theorem stores_declareVar (r : Realm κ) (s : ScopeId) (name : String) (v : Value)
    (deletable : Bool) : r.heap.Stores v (r.declareVar s name v deletable).2.heap := by
  unfold declareVar
  dsimp only
  split
  · exact .nothing
  · split
    · exact .nothing
    · split
      · exact .nothing
      · rename_i data hd
        split
        · split <;> exact .nothing
        · exact .property hd fun u hu => (Option.some.inj hu).symm

theorem stores_hoistFunction (r : Realm κ) (s : ScopeId) (name : String) (v : Value) :
    r.heap.Stores v (r.hoistFunction s name v).2.heap := by
  unfold hoistFunction
  split
  · exact .nothing
  · split
    · exact .nothing
    · rename_i t _
      exact stores_publishLinked (r.modifyScope t _) _ _ _

/-- Linking changes the object only: it notes the scope and gets hidden properties for variables. -/
theorem heap_link (r : Realm κ) (s : ScopeId) (o : ObjectId) :
    ∃ f : Object κ → Object κ, (r.link s o).heap = r.heap.modify o f ∧
      ∀ (P : Object κ → Prop) data, P { data with scope := some s } →
        (∀ e ∈ (r.scope s).vars.entries, ∀ d, P d → P (d.putHidden (.ofString e.1) e.2.value)) →
        P (f data) := by
  have hfold : ∀ (P : Object κ → Prop) (entries : List (String × Binding)) (data : Object κ),
      P data → (∀ e ∈ entries, ∀ d, P d → P (d.putHidden (.ofString e.1) e.2.value)) →
      P (entries.foldl (fun data e =>
        if data.properties.contains (.ofString e.1) then data
        else data.putHidden (.ofString e.1) e.2.value) data) := by
    intro P entries
    induction entries with
    | nil => exact fun data h _ => h
    | cons e rest ih =>
      intro data h hput
      rw [List.foldl_cons]
      refine ih _ ?_ fun e he => hput e (List.mem_cons_of_mem _ he)
      split
      · exact h
      · exact hput e List.mem_cons_self data h
  refine ⟨_, ?_, fun P data h hput => hfold P (r.scope s).vars.entries _ h hput⟩
  unfold link
  dsimp only
  split <;> rfl

theorem moves_link (r : Realm κ) (s : ScopeId) (o : ObjectId) :
    ReflTransGen Move r.heap (r.link s o).heap := by
  obtain ⟨f, hf, hkeep⟩ := heap_link r s o
  rw [hf]
  refine .single (.modify _ _ _ fun data _ => ?_)
  exact hkeep (fun d => d.id = data.id) data rfl fun _ _ _ h => h

/-- A step changes the heap by moves. -/
theorem Step.moves {allowed : Request κ → Prop} {r r' : Realm κ} (h : Step allowed r r') :
    ReflTransGen Move r.heap r'.heap := by
  cases h with
  | create kind prototype => exact .single (.allocate _ _)
  | createArray ha => exact .single (.allocate _ _)
  | createFunction ha => exact .single (.allocate _ _)
  | createError kind message => exact .single (.allocate _ _)
  | createIterator ha => exact .single (.allocate _ _)
  | createConstructor ha => exact moves_createConstructor _ _ _
  | assign h => exact moves_assign h
  | assignName h =>
    obtain ⟨s, -, hs⟩ := assignIn_eq_stored h
    cases hs with
    | lexical hb ha => exact .refl
    | var hb ha hl => exact .refl
    | property hl ha => exact moves_assign ha
  | define ha h =>
    obtain ⟨data, data', hd, hdef, rfl⟩ := define_eq_ok h
    rw [heap_sync]
    refine Heap.moves_replace hd ?_
    rcases Object.define_eq_ok hdef with rfl | ⟨-, elements, rfl, -⟩ <;> rfl
  | delete ha h =>
    rcases delete_eq_ok h with rfl | ⟨data, data', hd, ⟨hdel, rfl⟩ | ⟨hdel, rfl⟩⟩
    · exact .refl
    · rw [heap_unlink]
      exact Heap.moves_replace hd (by rw [Object.delete_eq_property hdel])
    · refine Heap.moves_replace hd ?_
      rcases Object.delete_eq_element hdel with rfl | ⟨-, elements, rfl, -⟩ <;> rfl
  | setPrototype ha h =>
    rcases setPrototype_eq_ok h with rfl | ⟨data, hd, -, rfl⟩
    · exact .refl
    · exact Heap.moves_replace hd rfl
  | preventExtensions ha h =>
    obtain ⟨data, hd, rfl⟩ := preventExtensions_eq_ok h
    exact Heap.moves_replace hd rfl
  | writeHidden ha => exact .single (.modify _ _ _ fun _ _ => rfl)
  | writePrototype ha => exact .single (.modify _ _ _ fun _ _ => rfl)
  | writeSlot ha => exact .single (.modify _ _ _ fun _ _ => rfl)
  | writeElements ha => exact .single (.modify _ _ _ fun _ _ => rfl)
  | declare ha => exact (stores_declare _ _ _ _ _).moves
  | setInScope ha => exact (stores_setInScope _ _ _ _).moves
  | declareVar ha => exact (stores_declareVar _ _ _ _ _).moves
  | hoistFunction ha => exact (stores_hoistFunction _ _ _ _).moves
  | link ha => exact moves_link _ _ _
  | defineBuiltin ha => exact .single (.modify _ _ _ fun _ _ => rfl)
  | collect scopes values => exact .single (.sweep _ _)
  | exhaust o p =>
    refine .single (.modify _ _ _ fun data _ => ?_)
    split <;> rfl
  | createSymbol ha => exact .refl
  | addScope ha => exact .refl
  | createUninitialized ha => exact .refl
  | startProducer p => exact .refl
  | stopProducer p => exact .refl
  | enterJoin o => exact .refl
  | leaveJoin => exact .refl

theorem moves_fresh (options : Options) :
    ReflTransGen Move (Heap.empty : Heap κ) (fresh options : Realm κ).heap := by
  have hfold : ∀ (l : List Intrinsic) (r : Realm κ), ReflTransGen Move r.heap
      (l.foldl (fun r i => (r.allocate (intrinsicObject i)).2) r).heap := by
    intro l
    induction l with
    | nil => exact fun r => .refl
    | cons i l ih =>
      intro r
      exact .head (.allocate _ (intrinsicObject i)) (ih (r.allocate (intrinsicObject i)).2)
  refine (hfold Intrinsic.all (bare options)).trans ?_
  simp only [fresh]
  generalize Intrinsic.all.foldl (fun r i => (r.allocate (intrinsicObject i)).2) (bare options) = r
  have hg : Move r.heap r.createObject.2.heap := .allocate _ (.make .ordinary _)
  rcases hc : r.createObject with ⟨global, r1⟩
  rw [hc] at hg
  refine (((ReflTransGen.single hg).trans (moves_link r1 _ global)).tail
    (move_modifyObject _ global ?_)).tail (move_modifyObject _ _ ?_)
  · exact fun _ => rfl
  · exact fun _ => rfl

/-- All objects have something. -/
def EachObject (P : Object κ → Prop) (r : Realm κ) : Prop :=
  ∀ o data, r.heap.get? o = some data → P data

namespace EachObject

variable {P : Object κ → Prop} {r r' : Realm κ} {o : ObjectId} {data : Object κ}

theorem allocate (h : r.EachObject P) {new : Object κ} (hnew : ∀ id, P { new with id := id }) :
    (r.allocate new).2.EachObject P := by
  intro p d hd
  rcases Heap.get?_allocate_cases r.heap new p with heq | ⟨id, heq⟩
  · exact h p d (heq ▸ hd)
  · rw [← Option.some.inj (heq.symm.trans hd)]
    exact hnew id

theorem modify (h : r.EachObject P) {f : Object κ → Object κ}
    (heap : r'.heap = r.heap.modify o f)
    (hf : ∀ data, r.heap.get? o = some data → P data → P (f data)) : r'.EachObject P := by
  intro p d hd
  rw [heap, Heap.get?_modify] at hd
  split at hd
  · obtain ⟨before, hbefore, rfl⟩ := Option.map_eq_some_iff.1 hd
    exact hf before hbefore (h o before hbefore)
  · exact h p d hd

theorem replace (h : r.EachObject P) (hd : r.heap.get? o = some data) {data' : Object κ}
    (heap : r'.heap = r.heap.replace o data') (hdata : P data → P data') : r'.EachObject P := by
  refine h.modify heap fun before hbefore hP => ?_
  obtain rfl := Option.some.inj (hd.symm.trans hbefore)
  exact hdata hP

variable (hput : ∀ data key v w e c, P data → P (data.putProperty key (.data v w e c)))
include hput

theorem defineBuiltin (h : r.EachObject P) (name : String) (v : Value) :
    (r.defineBuiltin name v).EachObject P :=
  h.modify (o := r.globalObject) rfl fun data _ hdata => hput data _ _ _ _ _ hdata

variable (hscope : ∀ data s, P data → P { data with scope := some s })
include hscope

theorem link (h : r.EachObject P) (s : ScopeId) (o : ObjectId) : (r.link s o).EachObject P := by
  obtain ⟨f, heap, hkeep⟩ := heap_link r s o
  exact h.modify heap fun data _ hdata =>
    hkeep P data (hscope data s hdata) fun _ _ d hd => hput d _ _ _ _ _ hd

/-- What the prototypes and an object without properties have, and a property with a value does not
change, all objects have at the start. -/
theorem fresh (hintrinsic : ∀ i id, P { (intrinsicObject i : Object κ) with id := id })
    (hglobal : ∀ id, P { (.make .ordinary (some Intrinsic.object.id) : Object κ) with id := id })
    (options : Options) : (fresh options : Realm κ).EachObject P := by
  have hfold : ∀ (l : List Intrinsic) (r : Realm κ), r.EachObject P →
      (l.foldl (fun r i => (r.allocate (intrinsicObject i)).2) r).EachObject P := by
    intro l
    induction l with
    | nil => exact fun r h => h
    | cons i l ih => exact fun r h => ih _ (h.allocate (hintrinsic i))
  have hbare : (bare options : Realm κ).EachObject P := by
    intro o data hd
    cases hd
  have hall := hfold Intrinsic.all (bare options) hbare
  simp only [Realm.fresh]
  generalize Intrinsic.all.foldl (fun r i => (r.allocate (intrinsicObject i)).2) (bare options) = r
    at hall
  have hcreated : r.createObject.2.EachObject P := hall.allocate hglobal
  rcases hc : r.createObject with ⟨global, r1⟩
  rw [hc] at hcreated
  have hlink := hcreated.link hput hscope r1.globalScope global
  refine defineBuiltin hput (hlink.modify (o := global) rfl fun data _ hdata => ?_) _ _
  -- the names that are fixed
  exact hput _ _ _ _ _ _ (hput _ _ _ _ _ _ (hput _ _ _ _ _ _ hdata))

end EachObject

theorem heap_wellFormed_of_reached {allowed : Request κ → Prop} {options : Options} {r : Realm κ}
    (h : Reached allowed options r) : r.heap.WellFormed := by
  refine h.induction (P := fun r => r.heap.WellFormed) ?_ fun r r' hr hs => hr.moves hs.moves
  exact Heap.wellFormed_empty.moves (moves_fresh options)

theorem size_cells_collect (r : Realm κ) (scopes : List ScopeId) (values : List Value) :
    (r.collect scopes values).2.heap.cells.size = r.heap.cells.size := by
  simp [collect, Heap.sweep]

/-- In every realm that can be met, the free cells are exactly the empty ones, each listed once, and
each object carries the handle of its cell. Hence the next object gets a cell in which no object
lives, the live objects are the cells less the free ones, and so they are behind a collection. -/
theorem cells_of_reached {options : Options} {r : Realm κ}
    (h : Reached (fun _ => True) options r) :
    r.heap.free.Nodup ∧ (∀ i, i ∈ r.heap.free ↔ r.heap.cells[i]? = some none) ∧
    (∀ i (data : Object κ), r.heap.cells[i]? = some (some data) → data.id = ⟨i⟩) ∧
    (∀ data, r.heap.isLive (r.heap.allocate data).1 = false) ∧
    r.heap.free.length ≤ r.heap.cells.size ∧
    r.heap.liveCount = r.heap.cells.size - r.heap.free.length ∧
    ∀ scopes values, (r.collect scopes values).2.heap.free.length ≤ r.heap.cells.size := by
  have hw := heap_wellFormed_of_reached h
  have hcount := hw.liveCount_add_length_free
  refine ⟨hw.nodup, hw.mem_free, fun i data hd => ?_, fun data => ?_, by omega, by omega,
    fun scopes values => ?_⟩
  · exact hw.id_eq ⟨i⟩ data (Heap.get?_eq_some_iff.2 hd)
  · simp [Heap.isLive, hw.allocate_fresh data]
  · have hc := heap_wellFormed_of_reached (h.step (.collect r scopes values))
    have hsize := size_cells_collect r scopes values
    have := hc.liveCount_add_length_free
    omega

/-- After an array that nothing refers to was made and swept, no cell is handed out twice. -/
theorem cells_of_reached_swept :
    let r := (((fresh {} : Realm Unit).create .array none).2.collect [] []).2
    Reached (fun _ => True) {} r ∧ r.heap.cells.size = 11 ∧ r.heap.free.Nodup ∧
      r.heap.liveCount = 11 - r.heap.free.length ∧
      r.heap.isLive (r.heap.allocate (.make .ordinary none)).1 = false := by
  intro r
  have h : Reached (fun _ => True) {} r :=
    (Reached.fresh.step (.create _ .array none)).step (.collect _ [] [])
  have hsize : r.heap.cells.size = 11 := (size_cells_collect _ _ _).trans (by decide +kernel)
  obtain ⟨hnodup, -, -, hfresh, -, hcount, -⟩ := cells_of_reached h
  rw [hsize] at hcount
  exact ⟨h, hsize, hnodup, hcount, hfresh _⟩

end Realm

end Ecma
