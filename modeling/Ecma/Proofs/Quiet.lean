import Ecma.Proofs.Linking

/-!
# What a step does to iterators

An iterator is seen through its producer and its mark: `Realm.iterator?` says which producer the
object in a cell takes its items from, and whether it is marked as exhausted. Most changes of a
realm are quiet: they leave producers and joins alone, and every iterator is as it was or gone
(`Realm.Quiet`). A request that runs no user code is calm: it is quiet, makes an iterator, or writes
a mark directly (`Realm.Calm`). All other steps are what is noted down around user code
(`Realm.Step.calm`).
-/

namespace Ecma

variable {κ : Type}

/-- The producer of an iterator, and whether the iterator is marked as exhausted. -/
def Object.iterator? (data : Object κ) : Option (ProducerId × Bool) :=
  data.producer.map fun p => (p, Engine.isExhausted data)

theorem Object.iterator?_eq_some_iff {data : Object κ} {p : ProducerId} {b : Bool} :
    data.iterator? = some (p, b) ↔ data.producer = some p ∧ Engine.isExhausted data = b := by
  rw [iterator?, Option.map_eq_some_iff]
  refine ⟨?_, fun ⟨hp, hb⟩ => ⟨p, hp, by rw [hb]⟩⟩
  rintro ⟨q, hq, heq⟩
  obtain ⟨rfl, rfl⟩ := Prod.mk.inj heq
  exact ⟨hq, rfl⟩

theorem Object.iterator?_of_assign {data data' : Object κ} {key : Text} {v : Value}
    (h : data.assign key v = .ok (.object data')) : data'.iterator? = data.iterator? := by
  rcases assign_eq_object h with ⟨p, -, rfl⟩ | ⟨-, elements, rfl, -⟩
  · rfl
  · rfl

theorem Object.iterator?_of_define {data data' : Object κ} {key : Text} {d : Descriptor}
    (h : data.define key d = .ok data') : data'.iterator? = data.iterator? := by
  rcases define_eq_ok h with rfl | ⟨-, elements, rfl, -⟩
  · rfl
  · rfl

theorem Object.iterator?_of_delete {data data' : Object κ} {key : Text}
    (h : data.delete key = .element data') : data'.iterator? = data.iterator? := by
  rcases delete_eq_element h with rfl | ⟨-, elements, rfl, -⟩
  · rfl
  · rfl

/-- Only the cell that an object gets changes when it is allocated. -/
theorem Heap.get?_allocate_of_ne {h : Heap κ} {data : Object κ} {o : ObjectId}
    (hne : o ≠ (h.allocate data).1) : (h.allocate data).2.get? o = h.get? o := by
  have hindex : o.index ≠ (h.allocate data).1.index := fun heq => hne (index_inj.1 heq)
  unfold allocate at hindex ⊢
  split
  · rename_i hfree
    rw [hfree] at hindex
    simp only [get?, Array.getElem?_setIfInBounds, if_neg hindex.symm]
  · rename_i hfree
    rw [hfree] at hindex
    simp only [get?, Array.getElem?_push, if_neg hindex]

namespace Realm

/-- The producer of the iterator in a cell and the mark of the iterator, if there is an iterator. -/
def iterator? (r : Realm κ) (o : ObjectId) : Option (ProducerId × Bool) :=
  (r.heap.get? o).bind Object.iterator?

variable {r r' : Realm κ} {s : ScopeId} {o : ObjectId} {p : ProducerId}

theorem iterator?_eq_some_iff {b : Bool} :
    r.iterator? o = some (p, b) ↔
      ∃ data, r.heap.get? o = some data ∧ data.producer = some p ∧
        Engine.isExhausted data = b := by
  rw [iterator?, Option.bind_eq_some_iff]
  simp only [Object.iterator?_eq_some_iff]

theorem iterator?_eq_of_get? {data : Object κ} (hd : r.heap.get? o = some data) :
    r.iterator? o = data.iterator? := by
  rw [iterator?, hd]
  rfl

/-- A change of one object shows in its own cell only. -/
theorem iterator?_modifyObject (r : Realm κ) (o : ObjectId) (f : Object κ → Object κ)
    (x : ObjectId) :
    (r.modifyObject o f).iterator? x =
      if x = o then (r.heap.get? o).bind fun data => (f data).iterator? else r.iterator? x := by
  rw [iterator?, iterator?, modifyObject, heap_withHeap, Heap.get?_modify]
  split
  · rw [Option.bind_map]
    rfl
  · rfl

/-- Producers and joins are left alone, and every iterator is as it was or gone. -/
structure Quiet (r r' : Realm κ) : Prop where
  joining : r'.joining = r.joining
  producers : r'.producers = r.producers
  iterator? : ∀ o, r'.iterator? o = r.iterator? o ∨ r'.iterator? o = none

namespace Quiet

theorem refl (r : Realm κ) : Quiet r r := ⟨rfl, rfl, fun _ => Or.inl rfl⟩

theorem trans {r'' : Realm κ} (h : Quiet r r') (h' : Quiet r' r'') : Quiet r r'' := by
  refine ⟨h'.joining.trans h.joining, h'.producers.trans h.producers, fun o => ?_⟩
  rcases h'.iterator? o with heq | hnone
  · rw [heq]
    exact h.iterator? o
  · exact Or.inr hnone

theorem of_heap (hj : r'.joining = r.joining) (hp : r'.producers = r.producers)
    (hh : r'.heap = r.heap) : Quiet r r' := by
  refine ⟨hj, hp, fun o => Or.inl ?_⟩
  rw [Realm.iterator?, hh]
  rfl

theorem modifyScope (r : Realm κ) (s : ScopeId) (f : Scope → Scope) :
    Quiet r (r.modifyScope s f) := of_heap rfl rfl rfl

theorem modifyObject {f : Object κ → Object κ}
    (hf : ∀ data, r.heap.get? o = some data → (f data).iterator? = data.iterator?) :
    Quiet r (r.modifyObject o f) := by
  refine ⟨rfl, rfl, fun x => Or.inl ?_⟩
  rw [iterator?_modifyObject]
  split
  · rename_i hx
    subst hx
    rw [Realm.iterator?]
    cases hd : r.heap.get? x with
    | none => rfl
    | some data => exact hf data hd
  · rfl

theorem replaceObject {data data' : Object κ} (hd : r.heap.get? o = some data)
    (hi : data'.iterator? = data.iterator?) : Quiet r (r.replaceObject o data') := by
  have hquiet : Quiet r (r.modifyObject o fun _ => data') := by
    refine modifyObject fun before hbefore => ?_
    rw [hi, Option.some.inj (hd.symm.trans hbefore)]
  exact hquiet

/-- A new object that is no iterator, whatever its cell held before. -/
theorem allocate (r : Realm κ) {data : Object κ} (hp : data.producer = none) :
    Quiet r (r.allocate data).2 := by
  refine ⟨rfl, rfl, fun x => ?_⟩
  show ((r.heap.allocate data).2.get? x).bind Object.iterator? = r.iterator? x ∨
    ((r.heap.allocate data).2.get? x).bind Object.iterator? = none
  rcases Heap.get?_allocate_cases r.heap data x with heq | ⟨id, heq⟩
  · exact Or.inl (by rw [heq]; rfl)
  · exact Or.inr (by rw [heq]; simp [Object.iterator?, hp])

theorem collect (r : Realm κ) (scopes : List ScopeId) (values : List Value) :
    Quiet r (r.collect scopes values).2 := by
  refine ⟨rfl, rfl, fun x => ?_⟩
  cases hx : (r.collect scopes values).2.heap.get? x with
  | none => exact Or.inr (by rw [Realm.iterator?, hx]; rfl)
  | some data =>
    left
    rw [iterator?_eq_of_get? hx, iterator?_eq_of_get? (get?_collect_eq_some_iff.1 hx).1]

theorem collectIfDue (r : Realm κ) (scopes : List ScopeId) (values : List Value) :
    Quiet r (r.collectIfDue scopes values).2 := by
  unfold Realm.collectIfDue
  split
  · exact collect r scopes values
  · exact refl r

theorem sync (r : Realm κ) (data : Object κ) (key : Text) : Quiet r (r.sync data key) := by
  unfold Realm.sync
  split
  · exact modifyScope r _ _
  · exact refl r

theorem unlink (r : Realm κ) (data : Object κ) (key : Text) : Quiet r (r.unlink data key) := by
  unfold Realm.unlink
  split
  · exact modifyScope r _ _
  · exact refl r

theorem assign {key : Text} {v : Value} (ha : r.assign o key v = .ok (.stored r')) :
    Quiet r r' := by
  obtain ⟨data, data', hd, hdata, rfl⟩ := assign_eq_stored ha
  exact (replaceObject hd (Object.iterator?_of_assign hdata)).trans (sync _ data' key)

theorem assignName {name : String} {v : Value} (ha : r.assignName s name v = .ok (.stored r')) :
    Quiet r r' := by
  obtain ⟨t, -, hstores⟩ := assignIn_eq_stored ha
  cases hstores with
  | lexical hb hassign => exact modifyScope r _ _
  | var hb hassign hl => exact modifyScope r _ _
  | property hl hassign => exact assign hassign

theorem define {key : Text} {d : Descriptor} (h : r.define o key d = .ok r') : Quiet r r' := by
  obtain ⟨data, data', hd, hdata, rfl⟩ := define_eq_ok h
  exact (replaceObject hd (Object.iterator?_of_define hdata)).trans (sync _ data' key)

theorem delete {key : Text} {b : Bool} (h : r.delete o key = .ok (b, r')) : Quiet r r' := by
  rcases delete_eq_ok h with rfl | ⟨data, data', hd, ⟨hdata, rfl⟩ | ⟨hdata, rfl⟩⟩
  · exact refl r'
  · have hi : data'.iterator? = data.iterator? := by
      rw [Object.delete_eq_property hdata]
      rfl
    exact (replaceObject hd hi).trans (unlink _ data' key)
  · exact replaceObject hd (Object.iterator?_of_delete hdata)

theorem setPrototype {proto : Option ObjectId} {b : Bool}
    (h : r.setPrototype o proto = .ok (b, r')) : Quiet r r' := by
  rcases setPrototype_eq_ok h with rfl | ⟨data, hd, -, rfl⟩
  · exact refl r'
  · exact replaceObject hd rfl

theorem preventExtensions (h : r.preventExtensions o = .ok r') : Quiet r r' := by
  obtain ⟨data, hd, rfl⟩ := preventExtensions_eq_ok h
  exact replaceObject hd rfl

theorem createConstructor (r : Realm κ) (call construct : Callable κ) :
    Quiet r (r.createConstructor call construct).2 := by
  unfold Realm.createConstructor
  dsimp only
  have hfunc : Quiet r (r.createFunction call).2 := allocate r rfl
  have hproto : Quiet r (r.createFunction call).2.createObject.2 := hfunc.trans (allocate _ rfl)
  refine (hproto.trans (modifyObject ?_)).trans (modifyObject ?_)
  · exact fun data _ => rfl
  · exact fun data _ => rfl

theorem errorValue (r : Realm κ) (f : Fault) : Quiet r (r.errorValue f).2 := by
  unfold Realm.errorValue
  split
  · exact refl r
  · split
    · exact allocate r rfl
    · exact refl r

theorem createSymbol (r : Realm κ) (description : Option Text) :
    Quiet r (r.createSymbol description).2 := of_heap rfl rfl rfl

theorem addScope (r : Realm κ) (kind : ScopeKind) (parent : Option ScopeId) :
    Quiet r (r.addScope kind parent).2 := of_heap rfl rfl rfl

theorem link (r : Realm κ) (s : ScopeId) (o : ObjectId) : Quiet r (r.link s o) := by
  have hjoining : (r.link s o).joining = r.joining ∧ (r.link s o).producers = r.producers := by
    unfold Realm.link
    dsimp only
    split <;> exact ⟨rfl, rfl⟩
  obtain ⟨f, hf, hkeep⟩ := heap_link r s o
  refine ⟨hjoining.1, hjoining.2, fun x => ?_⟩
  have hi : (r.link s o).iterator? x = (r.modifyObject o f).iterator? x := by
    rw [Realm.iterator?, hf]
    rfl
  rw [hi]
  refine (modifyObject fun data _ => ?_).iterator? x
  exact hkeep (fun d => d.iterator? = data.iterator?) data rfl fun _ _ _ hd => hd

theorem defineBuiltin (r : Realm κ) (name : String) (v : Value) :
    Quiet r (r.defineBuiltin name v) :=
  (modifyScope r _ _).trans (modifyObject fun _ _ => rfl)

theorem settles {req : Request κ} {name : String} {v : Value} {f : Option Fault}
    (h : r.Settles req name v f r') : Quiet r r' := by
  cases h with
  | kept hw => exact refl r
  | lexical hw s b => exact modifyScope r _ _
  | unlinked hw hl => exact modifyScope r _ _
  | dead hw hl hd => exact modifyScope r _ _
  | published hp hw hl hd => exact (modifyScope r _ _).trans (replaceObject hd rfl)
  | adopted hp hw hl hd hown hr =>
    rcases hr with rfl | ⟨u, -, rfl⟩
    · exact modifyScope r _ _
    · exact (modifyScope r _ _).trans (modifyScope _ _ _)
  | added hp hw hl hd hown deletable => exact (modifyScope r _ _).trans (replaceObject hd rfl)

end Quiet

/-- What a request does to iterators if it runs no user code: it is quiet, makes an iterator, or
writes a mark directly. -/
inductive Calm (allowed : Request κ → Prop) (r : Realm κ) : Realm κ → Prop where
  | quiet {r' : Realm κ} (h : Quiet r r') : Calm allowed r r'
  | createIterator (code : κ) : Calm allowed r (r.createIterator code).2
  | mark {o : ObjectId} {v : Value} (ha : allowed (.writeSlot o Engine.doneSlot v)) :
      Calm allowed r (r.modifyObject o fun data =>
        { data with slots := data.slots.insert Engine.doneSlot v })

variable {allowed : Request κ → Prop}

/-- Writing a slot other than the mark is quiet. -/
theorem Calm.writeSlot {name : String} {v : Value} (ha : allowed (.writeSlot o name v)) :
    Calm allowed r (r.modifyObject o fun data =>
      { data with slots := data.slots.insert name v }) := by
  by_cases hname : name = Engine.doneSlot
  · subst hname
    exact .mark ha
  · refine .quiet (.modifyObject fun data _ => ?_)
    have hget : (data.slots.insert name v).get? Engine.doneSlot =
        data.slots.get? Engine.doneSlot := by
      rw [OrderedMap.get?_insert, if_neg fun heq => hname heq.symm]
    simp only [Object.iterator?, Engine.isExhausted, hget]

/-- Every step is calm or notes something down around user code. -/
theorem Step.calm (h : Step allowed r r') :
    Calm allowed r r' ∨ ∀ S : Realm κ → Realm κ → Prop, Bookkeeping S → S r r' := by
  cases h with
  | create kind prototype => exact Or.inl (.quiet (.allocate r rfl))
  | createArray ha => exact Or.inl (.quiet (.allocate r rfl))
  | createFunction ha => exact Or.inl (.quiet (.allocate r rfl))
  | createConstructor ha => exact Or.inl (.quiet (.createConstructor r _ _))
  | createError kind message => exact Or.inl (.quiet (.allocate r rfl))
  | createIterator ha => exact Or.inl (.createIterator _)
  | createSymbol ha => exact Or.inl (.quiet (.createSymbol r _))
  | assign ha => exact Or.inl (.quiet (.assign ha))
  | assignName ha => exact Or.inl (.quiet (.assignName ha))
  | define _ hdef => exact Or.inl (.quiet (.define hdef))
  | delete _ hdel => exact Or.inl (.quiet (.delete hdel))
  | setPrototype _ hset => exact Or.inl (.quiet (.setPrototype hset))
  | preventExtensions _ hp => exact Or.inl (.quiet (.preventExtensions hp))
  | writeHidden ha => exact Or.inl (.quiet (.modifyObject fun _ _ => rfl))
  | writePrototype ha => exact Or.inl (.quiet (.modifyObject fun _ _ => rfl))
  | writeSlot ha => exact Or.inl (.writeSlot ha)
  | writeElements ha => exact Or.inl (.quiet (.modifyObject fun _ _ => rfl))
  | addScope ha => exact Or.inl (.quiet (.addScope r _ _))
  | createUninitialized ha => exact Or.inl (.quiet (.modifyScope r _ _))
  | declare ha => exact Or.inl (.quiet (.settles (settles_declare r _ _ _ _)))
  | setInScope ha => exact Or.inl (.quiet (.settles (settles_setInScope r _ _ _)))
  | declareVar ha => exact Or.inl (.quiet (.settles (settles_declareVar r _ _ _ _)))
  | hoistFunction ha => exact Or.inl (.quiet (.settles (settles_hoistFunction r _ _ _)))
  | link ha => exact Or.inl (.quiet (.link r _ _))
  | defineBuiltin ha => exact Or.inl (.quiet (.defineBuiltin r _ _))
  | collect scopes values => exact Or.inl (.quiet (.collect r scopes values))
  | startProducer p => exact Or.inr fun S hS => hS.startProducer r p
  | stopProducer p => exact Or.inr fun S hS => hS.stopProducer r p
  | exhaust o p => exact Or.inr fun S hS => hS.exhaust r o p
  | enterJoin o => exact Or.inr fun S hS => hS.enterJoin r o
  | leaveJoin => exact Or.inr fun S hS => hS.leaveJoin r

end Realm

end Ecma
