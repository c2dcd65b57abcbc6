import Ecma.Proofs.Lineage
import Ecma.Proofs.Mirror

/-!
# Grounded realms

The heap of a fresh realm is grounded, and the operations of a realm keep it so if the handles that
they are given belong to objects that live. A new prototype is walked through first and must not
lead back (`Heap.Grounded.setPrototype`). Linking a scope makes properties of variables that nobody
handed over just then, so it asks the same of their values (`Heap.Grounded.link`).
-/

namespace Ecma

variable {κ : Type}

/-! ## What the operations keep -/

namespace Realm

variable {r r' : Realm κ}

/-- A walk that ends without having met the target followed a whole lineage. -/
theorem lineage_of_onChain {target : ObjectId} {steps : Nat} {start : Option ObjectId}
    (h : r.onChain target steps start = .ok false) {p : ObjectId} (hp : start = some p) :
    ∃ l, r.heap.Lineage p l ∧ target ∉ l := by
  induction steps generalizing start p with
  | zero =>
    subst hp
    unfold onChain at h
    split at h <;> cases h
  | succ steps ih =>
    subst hp
    unfold onChain at h
    split at h
    · cases h
    · rename_i hne
      obtain ⟨data, hd, h⟩ := Except.bind_eq_ok h
      have hd := object_eq_ok.1 hd
      cases hproto : data.prototype with
      | none =>
        refine ⟨[p], .last hd hproto, fun hmem => hne ?_⟩
        exact (List.mem_singleton.1 hmem).symm
      | some q =>
        obtain ⟨l, hl, hnot⟩ := ih h hproto
        refine ⟨p :: l, .cons hd hproto hl, fun hmem => ?_⟩
        rcases List.mem_cons.1 hmem with he | hmem
        · exact hne he.symm
        · exact hnot hmem

/-- What a reached object refers to is reached. -/
theorem Reaches.refersTo {scopes : List ScopeId} {values : List Value} {o : ObjectId}
    {data : Object κ} {n : Node} (h : r.Reaches scopes values (.object o))
    (hd : r.heap.get? o = some data) (hn : data.RefersTo n) : r.Reaches scopes values n := by
  obtain ⟨root, hroot, hpath⟩ := h
  exact ⟨root, hroot, hpath.tail (.object hd hn)⟩

/-- A collection keeps what an object that it keeps inherits from. -/
theorem Reaches.lineage_collect {scopes : List ScopeId} {values : List Value} {o : ObjectId}
    {l : List ObjectId} (h : r.Reaches scopes values (.object o)) (hl : r.heap.Lineage o l) :
    (r.collect scopes values).2.heap.Lineage o l := by
  induction hl with
  | last hd hp => exact .last (get?_collect_eq_some_iff.2 ⟨hd, h⟩) hp
  | cons hd hp hl ih =>
    exact .cons (get?_collect_eq_some_iff.2 ⟨hd, h⟩) hp (ih (h.refersTo hd (.prototype hp)))

/-- A collection keeps what an object that it keeps holds. -/
theorem Reaches.holdsLive_collect {scopes : List ScopeId} {values : List Value} {o : ObjectId}
    {data : Object κ} (h : r.Reaches scopes values (.object o)) (hd : r.heap.get? o = some data)
    (hlive : r.heap.HoldsLive data) : (r.collect scopes values).2.heap.HoldsLive data := by
  have hkeep : ∀ v, r.heap.holds v = true → (∀ p, v = .object p → data.RefersTo (.object p)) →
      (r.collect scopes values).2.heap.holds v = true := by
    intro v hv hrefers
    cases v with
    | object p =>
      obtain ⟨d, hp⟩ := Heap.isLive_iff.1 hv
      exact Heap.isLive_of_get? (get?_collect_eq_some_iff.2 ⟨hp, h.refersTo hd (hrefers p rfl)⟩)
    | _ => rfl
  refine ⟨fun key p hp v hv => hkeep v (hlive.value key p hp v hv) ?_,
    fun v hv => hkeep v (hlive.element v hv) ?_⟩
  · rintro q rfl
    obtain ⟨w, e, c, rfl⟩ := Property.eq_data_of_value? hv
    exact .value hp
  · rintro q rfl
    obtain ⟨elements, he, hmem⟩ := hv
    exact .element he hmem

/-- The objects that a realm starts with hold no others. -/
theorem holdsLive_intrinsicObject (h : Heap κ) (i : Intrinsic) :
    h.HoldsLive (intrinsicObject i) := by
  cases i with
  | object => exact .make _ _
  | function => exact (Object.HoldsOnly.make .function (some Intrinsic.object.id)).of_eq rfl rfl
  | array => exact (Object.HoldsOnly.make .array _).withElements nofun
  | iterator => exact .make _ _
  | error kind =>
    refine Object.HoldsOnly.putHidden (.putHidden (.make _ _) _ ?_) _ ?_
    · rfl
    · rfl

theorem holdsLive_functionObject (h : Heap κ) (f : Callable κ) :
    h.HoldsLive (functionObject f) := by
  refine (((Object.HoldsOnly.make .function (some Intrinsic.function.id)).putProperty
    lengthKey (.data (.ofNat f.arity) false false true) fun v hv => ?_).putProperty
    (.ofString "name") (.data (.ofString f.name) false false true) fun v hv => ?_).of_eq rfl rfl
  all_goals
    obtain rfl := Option.some.inj hv
    rfl

end Realm

namespace Heap.Grounded

open Realm

variable {r r' : Realm κ}

/-! ### Making objects -/

theorem createArray (hg : r.heap.Grounded) {elements : Array Value}
    (he : ∀ v ∈ elements, r.heap.holds v = true) : (r.createArray elements).2.heap.Grounded :=
  hg.allocateIntrinsic rfl ((Object.HoldsOnly.make _ _).withElements he)

theorem createFunction (hg : r.heap.Grounded) (f : Callable κ) :
    (r.createFunction f).2.heap.Grounded :=
  hg.allocateIntrinsic rfl (holdsLive_functionObject r.heap f)

theorem createObject (hg : r.heap.Grounded) : r.createObject.2.heap.Grounded :=
  hg.allocateIntrinsic rfl (.make _ _)

theorem createConstructor (hg : r.heap.Grounded) (call construct : Callable κ) :
    (r.createConstructor call construct).2.heap.Grounded := by
  have hg1 := hg.createFunction call
  have hfunc : (r.createFunction call).2.heap.isLive (r.createFunction call).1 = true :=
    hg.wellFormed.isLive_allocated _
  rcases hf : r.createFunction call with ⟨func, r1⟩
  rw [hf] at hg1 hfunc
  have hg2 := hg1.createObject
  have hproto : r1.createObject.2.heap.isLive r1.createObject.1 = true :=
    hg1.wellFormed.isLive_allocated _
  have hfunc2 : r1.createObject.2.heap.isLive func = true :=
    hg1.wellFormed.isLive_allocate _ hfunc
  rcases hp : r1.createObject with ⟨proto, r2⟩
  rw [hp] at hg2 hproto hfunc2
  simp only [Realm.createConstructor, hf, hp]
  -- each of the two objects points to the other, and both live
  have hg3 : (r2.modifyObject proto fun o =>
      o.putHidden (.ofString "constructor") (.object func)).heap.Grounded :=
    hg2.modify (fun _ => rfl) (fun _ => rfl) fun _ hlive => hlive.putHidden _ hfunc2
  refine hg3.modify (fun _ => rfl) (fun _ => rfl) fun data hlive => ?_
  refine (hlive.putProperty prototypeKey (.data (.object proto) true false false)
    fun v hv => ?_).of_eq rfl rfl
  obtain rfl := Option.some.inj hv
  exact (isLive_modify _ _ _ _).trans hproto

theorem createError (hg : r.heap.Grounded) (kind : ErrorKind) (message : String) :
    (r.createError kind message).2.heap.Grounded := by
  refine hg.allocateIntrinsic rfl (Object.HoldsOnly.of_eq (.putHidden (.make .error _)
    (.ofString "message") ?_) rfl rfl)
  rfl

theorem createIterator (hg : r.heap.Grounded) (code : κ) :
    (r.createIterator code).2.heap.Grounded :=
  hg.allocateIntrinsic rfl ((Object.HoldsOnly.make .iterator none).of_eq rfl rfl)

theorem errorValue (hg : r.heap.Grounded) (f : Fault) : (r.errorValue f).2.heap.Grounded := by
  unfold Realm.errorValue
  split
  · exact hg
  · split
    · exact hg.createError _ _
    · exact hg

/-! ### Changing objects -/

theorem assign (hg : r.heap.Grounded) {o : ObjectId} {key : Text} {v : Value}
    (hv : r.heap.holds v = true) (h : r.assign o key v = .ok (.stored r')) :
    r'.heap.Grounded := by
  obtain ⟨data, data', hd, ha, rfl⟩ := assign_eq_stored h
  rw [heap_sync]
  refine hg.replace hd ?_ ?_ fun hlive => hlive.assign r.heap.holds_of_not_isObject hv ha
  all_goals rcases Object.assign_eq_object ha with ⟨p, -, rfl⟩ | ⟨-, elements, rfl, -⟩ <;> rfl

theorem assignName (hg : r.heap.Grounded) {s : ScopeId} {name : String} {v : Value}
    (hv : r.heap.holds v = true) (h : r.assignName s name v = .ok (.stored r')) :
    r'.heap.Grounded := by
  obtain ⟨t, -, hs⟩ := assignIn_eq_stored h
  cases hs with
  | lexical hb ha => exact hg
  | var hb ha hl => exact hg
  | property hl ha => exact hg.assign hv ha

theorem define (hg : r.heap.Grounded) {o : ObjectId} {key : Text} {d : Descriptor}
    (hd : ∀ v, d.value = some v → r.heap.holds v = true) (h : r.define o key d = .ok r') :
    r'.heap.Grounded := by
  obtain ⟨data, data', hget, hdef, rfl⟩ := define_eq_ok h
  rw [heap_sync]
  refine hg.replace hget ?_ ?_ fun hlive => hlive.define r.heap.holds_of_not_isObject hd hdef
  all_goals rcases Object.define_eq_ok hdef with rfl | ⟨-, elements, rfl, -⟩ <;> rfl

theorem delete (hg : r.heap.Grounded) {o : ObjectId} {key : Text} {b : Bool}
    (h : r.delete o key = .ok (b, r')) : r'.heap.Grounded := by
  rcases delete_eq_ok h with rfl | ⟨data, data', hd, ⟨hdel, rfl⟩ | ⟨hdel, rfl⟩⟩
  · exact hg
  · rw [heap_unlink]
    obtain rfl := Object.delete_eq_property hdel
    exact hg.replace hd rfl rfl fun hlive => hlive.erase
  · refine hg.replace hd ?_ ?_ fun hlive =>
      hlive.deleteElement r.heap.holds_of_not_isObject hdel
    all_goals rcases Object.delete_eq_element hdel with rfl | ⟨-, elements, rfl, -⟩ <;> rfl

theorem preventExtensions (hg : r.heap.Grounded) {o : ObjectId}
    (h : r.preventExtensions o = .ok r') : r'.heap.Grounded := by
  obtain ⟨data, hd, rfl⟩ := preventExtensions_eq_ok h
  exact hg.replace hd rfl rfl fun hlive => hlive.of_eq rfl rfl

/-- The walk before the change sees to it that the new lineage does not come back. -/
theorem setPrototype (hg : r.heap.Grounded) {o : ObjectId} {proto : Option ObjectId} {b : Bool}
    (h : r.setPrototype o proto = .ok (b, r')) : r'.heap.Grounded := by
  rcases setPrototype_eq_ok h with rfl | ⟨data, hd, hwalk, rfl⟩
  · exact hg
  · exact hg.reparent hd fun p hp => lineage_of_onChain hwalk hp

theorem exhaust (hg : r.heap.Grounded) (o : ObjectId) (p : ProducerId) :
    (Engine.exhaust o p r).heap.Grounded := by
  refine hg.modify (fun data => ?_) (fun data => ?_) fun data hlive => ?_
  · split <;> rfl
  · split <;> rfl
  · split
    · exact hlive.of_eq rfl rfl
    · exact hlive

theorem defineBuiltin (hg : r.heap.Grounded) (name : String) {v : Value}
    (hv : r.heap.holds v = true) : (r.defineBuiltin name v).heap.Grounded :=
  hg.modify (fun _ => rfl) (fun _ => rfl) fun _ hlive => hlive.putHidden _ hv

/-- Linking gives the object what the variables of the scope hold. -/
theorem link (hg : r.heap.Grounded) {s : ScopeId} (o : ObjectId)
    (hvars : ∀ b ∈ (r.scope s).vars.values, r.heap.holds b.value = true) :
    (r.link s o).heap.Grounded := by
  obtain ⟨f, hf, hkeep⟩ := heap_link r s o
  rw [hf]
  refine hg.modify (fun data => ?_) (fun data => ?_) fun data hlive => ?_
  · exact hkeep (fun d => d.id = data.id) data rfl fun _ _ _ h => h
  · exact hkeep (fun d => d.prototype = data.prototype) data rfl fun _ _ _ h => h
  · refine hkeep r.heap.HoldsLive data (hlive.of_eq rfl rfl) fun e he d hd => ?_
    exact hd.putHidden _ (hvars e.2 (List.mem_map.2 ⟨e, he, rfl⟩))

/-! ### Collections -/

/-- What is kept is kept together with all that it inherits from and holds. -/
theorem collect (hg : r.heap.Grounded) (scopes : List ScopeId) (values : List Value) :
    (r.collect scopes values).2.heap.Grounded := by
  refine ⟨⟨hg.wellFormed.sweep _, fun o data hd => ?_, fun o ho => ?_⟩, fun i => ?_⟩
  · obtain ⟨hd, hreach⟩ := get?_collect_eq_some_iff.1 hd
    exact hreach.holdsLive_collect hd (hg.holdsLive o data hd)
  · obtain ⟨data, hd⟩ := isLive_iff.1 ho
    obtain ⟨hd, hreach⟩ := get?_collect_eq_some_iff.1 hd
    obtain ⟨l, hl⟩ := hg.lineage o (isLive_of_get? hd)
    exact ⟨l, hreach.lineage_collect hl⟩
  · obtain ⟨data, hd⟩ := isLive_iff.1 (hg.intrinsic i)
    exact isLive_of_get? (get?_collect_eq_some_iff.2 ⟨hd, _, .prototype i, .refl⟩)

theorem collectIfDue (hg : r.heap.Grounded) (scopes : List ScopeId) (values : List Value) :
    (r.collectIfDue scopes values).2.heap.Grounded := by
  unfold Realm.collectIfDue
  split
  · exact hg.collect scopes values
  · exact hg

end Heap.Grounded

/-! ## Fresh realms -/

/-- A sound heap whose cells are all taken. -/
structure Heap.Packed (h : Heap κ) (size : Nat) : Prop extends Sound h where
  size_eq : h.cells.size = size
  free_eq : h.free = []

namespace Heap.Packed

variable {h : Heap κ} {size : Nat}

theorem empty : (Heap.empty : Heap κ).Packed 0 := ⟨sound_empty, rfl, rfl⟩

theorem isLive (hp : h.Packed size) {o : ObjectId} (ho : o.index < size) : h.isLive o = true := by
  have hlt : o.index < h.cells.size := hp.size_eq ▸ ho
  rw [Heap.isLive, get?, Array.getElem?_eq_getElem hlt, Option.join_some]
  cases hcell : h.cells[o.index] with
  | some data => rfl
  | none =>
    have hfree : o.index ∈ h.free :=
      (hp.wellFormed.mem_free _).2 (by rw [Array.getElem?_eq_getElem hlt, hcell])
    rw [hp.free_eq] at hfree
    cases hfree

/-- The next object gets the next cell. -/
theorem allocate (hp : h.Packed size) {data : Object κ}
    (hproto : ∀ p, data.prototype = some p → p.index < size) (hdata : h.HoldsLive data) :
    (h.allocate data).2.Packed (size + 1) := by
  refine ⟨hp.toSound.allocate (fun p h => hp.isLive (hproto p h)) hdata, ?_, ?_⟩
  · simp [Heap.allocate, hp.free_eq, hp.size_eq]
  · rw [Heap.allocate, hp.free_eq]

end Heap.Packed

/-- Every prototype that a realm starts with inherits from one before it. -/
theorem index_prototype_intrinsicObject {i : Intrinsic} {p : ObjectId}
    (h : (Realm.intrinsicObject i : Object κ).prototype = some p) : p.index < i.id.index := by
  rcases i with _ | _ | _ | _ | kind
  case object => cases h
  case error => cases kind <;> (obtain rfl := Option.some.inj h; decide)
  all_goals
    obtain rfl := Option.some.inj h
    decide

namespace Realm

theorem packed_intrinsics (options : Options) :
    (Intrinsic.all.foldl (fun r i => (r.allocate (intrinsicObject i)).2)
      (bare options : Realm κ)).heap.Packed Intrinsic.all.length := by
  have hfold : ∀ (l : List Intrinsic) (n : Nat) (r : Realm κ), r.heap.Packed n →
      (∀ k i, l[k]? = some i → i.id.index = n + k) →
      (l.foldl (fun r i => (r.allocate (intrinsicObject i)).2) r).heap.Packed (n + l.length) := by
    intro l
    induction l with
    | nil => exact fun n r hr _ => hr
    | cons i l ih =>
      intro n r hr hid
      have hi : i.id.index = n := hid 0 i rfl
      have hr' : (r.allocate (intrinsicObject i)).2.heap.Packed (n + 1) := by
        refine hr.allocate (fun p hp => ?_) (holdsLive_intrinsicObject _ i)
        have := index_prototype_intrinsicObject hp
        omega
      have hl := ih (n + 1) _ hr' fun k j hj => by
        have := hid (k + 1) j hj
        omega
      rw [List.length_cons, ← Nat.add_assoc, Nat.add_right_comm]
      exact hl
  have hid : ∀ k i, Intrinsic.all[k]? = some i → i.id.index = 0 + k := by
    intro k i h
    obtain ⟨hk, rfl⟩ := List.getElem?_eq_some_iff.1 h
    revert k
    decide
  have hall := hfold Intrinsic.all 0 (bare options) .empty hid
  rwa [Nat.zero_add] at hall

theorem grounded_fresh (options : Options) : (fresh options : Realm κ).heap.Grounded := by
  have hpacked := packed_intrinsics (κ := κ) options
  have hunlinked := unlinked_intrinsics (κ := κ) options
  simp only [fresh]
  generalize Intrinsic.all.foldl (fun r i => (r.allocate (intrinsicObject i)).2) (bare options) = r
    at hpacked hunlinked
  have hg : r.heap.Grounded := by
    refine ⟨hpacked.toSound, fun i => hpacked.isLive ?_⟩
    rcases i with _ | _ | _ | _ | kind
    case error => cases kind <;> decide
    all_goals decide
  have hg1 := hg.createObject
  have hlive : r.createObject.2.heap.isLive r.createObject.1 = true :=
    hg.wellFormed.isLive_allocated _
  have hunlinked1 : r.createObject.2.Unlinked := hunlinked.allocate rfl
  rcases hc : r.createObject with ⟨global, r1⟩
  rw [hc] at hg1 hlive hunlinked1
  have hvars : (r1.scope r1.globalScope).vars.values = [] := by
    rw [scope, hunlinked1.scopes_eq, hunlinked1.globalScope_eq]
    rfl
  have hg2 : (r1.link r1.globalScope global).heap.Grounded :=
    hg1.link global (by simp [hvars])
  have hlive2 : (r1.link r1.globalScope global).heap.isLive global = true := by
    obtain ⟨f, hf, -⟩ := heap_link r1 r1.globalScope global
    rw [hf, Heap.isLive_modify, hlive]
  refine Heap.Grounded.defineBuiltin (hg2.modify ?_ ?_ fun data hdata => ?_) _
    ((Heap.isLive_modify _ _ _ _).trans hlive2)
  · exact fun data => rfl
  · exact fun data => rfl
  · refine ((hdata.putProperty _ _ ?_).putProperty _ _ ?_).putProperty _ _ ?_
    all_goals
      rintro v hv
      obtain rfl := Option.some.inj hv
      rfl

end Realm

end Ecma
