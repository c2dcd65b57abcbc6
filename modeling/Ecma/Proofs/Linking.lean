import Ecma.Proofs.CodePoint
import Ecma.Proofs.ReadOnly
import Ecma.Proofs.Stability

/-!
# Objects that stand in for scopes

Linking a scope to an object notes the object in the scope and the scope in the object, and gives
the object a property for every variable of the scope. Properties that the object stores already
stay as they are (`Object.get?_showVars`), so where their values differ from those of the variables,
linking leaves the two sides apart.

The two notes can come apart as well: linking the scope to another object changes the note in the
scope, while the first object keeps its own and goes on writing to the variables. As long as a scope
is linked to no other object, the notes agree (`Realm.Agrees`): this is kept by every step, and so
the object that a variable is changed through is the one that the scope is linked to.
-/

namespace Ecma

variable {κ σ : Type}

/-! ## What linking shows -/

/-- The object with a hidden property for every variable whose name it does not store. -/
def Object.showVars (data : Object κ) (vars : List (String × Binding)) : Object κ :=
  vars.foldl
    (fun data (name, b) =>
      let key := Text.ofString name
      if data.properties.contains key then data else data.putHidden key b.value)
    data

/-- A stored property stays as it is, and a name without one shows its variable. -/
theorem Object.get?_showVars (vars : List (String × Binding)) (data : Object κ) (name : String) :
    (data.showVars vars).properties.get? (.ofString name) =
      (data.properties.get? (.ofString name)).or
        ((OrderedMap.find? name vars).map fun b => .hidden b.value) := by
  induction vars generalizing data with
  | nil => simp [showVars, OrderedMap.find?]
  | cons var rest ih =>
    obtain ⟨x, b⟩ := var
    have hcons : data.showVars ((x, b) :: rest) =
        (if data.properties.contains (.ofString x) then data
          else data.putHidden (.ofString x) b.value).showVars rest := rfl
    rw [hcons, ih, OrderedMap.find?]
    by_cases hx : x = name
    · -- the first variable of the name is shown, and hides the later ones
      subst hx
      rw [if_pos rfl]
      cases hget : data.properties.get? (.ofString x) with
      | none => simp [OrderedMap.contains, hget, putHidden, putProperty, OrderedMap.get?_insert]
      | some p => simp [OrderedMap.contains, hget]
    · rw [if_neg hx]
      have hkey : Text.ofString name ≠ Text.ofString x := fun h => hx (Text.ofString_inj.1 h).symm
      split
      · rfl
      · rw [putHidden, putProperty, OrderedMap.get?_insert, if_neg hkey]

namespace Object

variable {data data' : Object κ} {key : Text}

theorem scope_of_assign {v : Value} (h : data.assign key v = .ok (.object data')) :
    data'.scope = data.scope := by
  rcases assign_eq_object h with ⟨p, -, rfl⟩ | ⟨-, elements, rfl, -⟩
  · rfl
  · rfl

theorem scope_of_define {d : Descriptor} (h : data.define key d = .ok data') :
    data'.scope = data.scope := by
  rcases define_eq_ok h with rfl | ⟨-, elements, rfl, -⟩
  · rfl
  · rfl

theorem scope_of_delete (h : data.delete key = .element data') : data'.scope = data.scope := by
  rcases delete_eq_element h with rfl | ⟨-, elements, rfl, -⟩
  · rfl
  · rfl

end Object

namespace Realm

variable {r r' : Realm κ} {s t : ScopeId} {o p : ObjectId}

theorem scope_link (r : Realm κ) (s : ScopeId) (o : ObjectId) (t : ScopeId) :
    (r.link s o).scope t =
      (r.modifyScope s fun scope => { scope with linked := some o }).scope t := by
  unfold link
  dsimp only
  split
  · rfl
  · rfl

theorem vars_link (r : Realm κ) (s : ScopeId) (o : ObjectId) (t : ScopeId) :
    ((r.link s o).scope t).vars = (r.scope t).vars := by
  rw [scope_link]
  refine scope_modifyScope_frame (g := Scope.vars) (fun scope => ?_) r s t
  rfl

theorem heap_link_eq (r : Realm κ) (s : ScopeId) (o : ObjectId) :
    (r.link s o).heap = r.heap.modify o fun data =>
      { data with scope := some s }.showVars (r.scope s).vars.entries := by
  unfold link
  dsimp only
  split
  · rfl
  · rfl

/-- Linking makes every variable of the scope a property of the object. The property has the value
of the variable, unless the object stored another value under the name before. -/
theorem link_shows_vars {data : Object κ} (hd : r.heap.get? o = some data) {name : String}
    {b : Binding} (hb : ((r.link s o).scope s).vars.get? name = some b) :
    (r.link s o).ownProperty? o (.ofString name) =
        .ok (some ((data.properties.get? (.ofString name)).getD (.hidden b.value))) ∧
      ((∀ v w e c, (r.link s o).ownProperty? o (.ofString name) = .ok (some (.data v w e c)) →
          v = b.value) ↔
        ∀ v w e c, data.properties.get? (.ofString name) = some (.data v w e c) →
          v = b.value) := by
  have hvar : OrderedMap.find? name (r.scope s).vars.entries = some b := by
    rw [vars_link] at hb
    exact hb
  have hown : (r.link s o).ownProperty? o (.ofString name) =
      .ok (some ((data.properties.get? (.ofString name)).getD (.hidden b.value))) := by
    rw [ownProperty?, object, heap_link_eq, Heap.get?_modify, if_pos rfl, hd]
    refine congrArg Except.ok (Object.own?_of_get? ?_)
    rw [Object.get?_showVars, hvar]
    cases data.properties.get? (.ofString name) with
    | none => rfl
    | some p => rfl
  refine ⟨hown, ?_⟩
  rw [hown]
  cases data.properties.get? (.ofString name) with
  | none =>
    refine ⟨fun _ v w e c h => ?_, fun _ v w e c h => ?_⟩
    · cases h
    · cases h
      rfl
  | some p =>
    refine ⟨fun h v w e c hp => ?_, fun h v w e c hp => ?_⟩
    · exact h v w e c (congrArg Except.ok hp)
    · exact h v w e c (Except.ok.inj hp)

/-- A variable becomes a hidden property of an object that stores nothing yet. -/
theorem link_shows_vars_hidden :
    let r : Realm Unit := [.addScope .function (some ⟨0⟩),
      .declare ⟨1⟩ "x" .varName (.boolean true), .create .ordinary none].foldl answer (fresh {})
    r.heap.isLive ⟨10⟩ = true ∧
      ((r.link ⟨1⟩ ⟨10⟩).scope ⟨1⟩).vars.get? "x" = some (.init .varName (.boolean true)) ∧
      (r.link ⟨1⟩ ⟨10⟩).ownProperty? ⟨10⟩ (.ofString "x") =
        .ok (some (.hidden (.boolean true))) := by
  intro r
  have hlive : r.heap.isLive ⟨10⟩ = true := by decide +kernel
  have hempty : (r.heap.get? ⟨10⟩).map (·.properties.get? (.ofString "x")) = some none := by
    decide +kernel
  obtain ⟨data, hd, hget⟩ := Option.map_eq_some_iff.1 hempty
  have hb : ((r.link ⟨1⟩ ⟨10⟩).scope ⟨1⟩).vars.get? "x" =
      some (.init .varName (.boolean true)) := by decide +kernel
  have hown := (link_shows_vars hd hb).1
  rw [hget] at hown
  exact ⟨hlive, hb, hown⟩

/-- Linking a scope to an object that stores another value under the name of a variable leaves the
variable and the property apart. -/
theorem var_differs_from_property :
    let r : Realm Unit := [.addScope .function (some ⟨0⟩),
      .declare ⟨1⟩ "x" .varName (.boolean true), .create .ordinary none,
      .set ⟨10⟩ (.ofString "x") (.boolean false)].foldl answer (fresh {})
    Reached (fun _ => True) {} r ∧ r.heap.isLive ⟨10⟩ = true ∧
      ((r.link ⟨1⟩ ⟨10⟩).scope ⟨1⟩).vars.get? "x" = some (.init .varName (.boolean true)) ∧
      (r.link ⟨1⟩ ⟨10⟩).ownProperty? ⟨10⟩ (.ofString "x") =
        .ok (some (.data (.boolean false) true true true)) := by
  intro r
  refine ⟨Reached.fresh.requests _ fun _ _ => trivial, ?_, ?_, ?_⟩
  · decide +kernel
  · decide +kernel
  · decide +kernel

/-! ## Which links a step keeps -/

/-- The scope that an object stands in for by its own note. -/
def standsIn? (r : Realm κ) (o : ObjectId) : Option ScopeId := (r.heap.get? o).bind Object.scope

/-- Nothing is linked on the way from one realm to the other: scopes keep their notes, and objects
keep theirs or drop them. -/
structure KeepsLinks (r r' : Realm κ) : Prop where
  size_le : r.scopes.size ≤ r'.scopes.size
  linked : ∀ t, (r'.scope t).linked = (r.scope t).linked
  standsIn? : ∀ o, r'.standsIn? o = r.standsIn? o ∨ r'.standsIn? o = none

namespace KeepsLinks

theorem trans {r'' : Realm κ} (h : KeepsLinks r r') (h' : KeepsLinks r' r'') :
    KeepsLinks r r'' := by
  refine ⟨Nat.le_trans h.size_le h'.size_le, fun t => (h'.linked t).trans (h.linked t), fun o => ?_⟩
  rcases h'.standsIn? o with heq | hnone
  · rw [heq]
    exact h.standsIn? o
  · exact Or.inr hnone

theorem of_eq (hs : r'.scopes = r.scopes) (hh : r'.heap = r.heap) : KeepsLinks r r' := by
  refine ⟨Nat.le_of_eq (by rw [hs]), fun t => ?_, fun o => Or.inl ?_⟩
  · rw [scope, hs]
    rfl
  · rw [Realm.standsIn?, hh]
    rfl

theorem refl (r : Realm κ) : KeepsLinks r r := of_eq rfl rfl

theorem modifyScope {f : Scope → Scope} (hf : ∀ scope, (f scope).linked = scope.linked) :
    KeepsLinks r (r.modifyScope s f) := by
  refine ⟨?_, scope_modifyScope_frame hf r s, fun _ => Or.inl rfl⟩
  simp [Realm.modifyScope]

theorem modifyObject {f : Object κ → Object κ}
    (hf : ∀ data, r.heap.get? o = some data → (f data).scope = data.scope) :
    KeepsLinks r (r.modifyObject o f) := by
  refine ⟨Nat.le_refl _, fun _ => rfl, fun p => Or.inl ?_⟩
  show ((r.heap.modify o f).get? p).bind Object.scope = (r.heap.get? p).bind Object.scope
  rw [Heap.get?_modify]
  split
  · rename_i hp
    subst hp
    cases hd : r.heap.get? p with
    | none => rfl
    | some data => exact hf data hd
  · rfl

theorem replaceObject {data data' : Object κ} (hd : r.heap.get? o = some data)
    (hscope : data'.scope = data.scope) : KeepsLinks r (r.replaceObject o data') := by
  have hkept : KeepsLinks r (r.modifyObject o fun _ => data') := by
    refine modifyObject fun before hbefore => ?_
    rw [hscope, Option.some.inj (hd.symm.trans hbefore)]
  exact hkept

/-- A new object stands in for nothing, whatever its cell held before. -/
theorem allocate (r : Realm κ) {data : Object κ} (hscope : data.scope = none) :
    KeepsLinks r (r.allocate data).2 := by
  refine ⟨Nat.le_refl _, fun _ => rfl, fun p => ?_⟩
  show ((r.heap.allocate data).2.get? p).bind Object.scope = (r.heap.get? p).bind Object.scope ∨
    ((r.heap.allocate data).2.get? p).bind Object.scope = none
  rcases Heap.get?_allocate_cases r.heap data p with heq | ⟨id, heq⟩
  · exact Or.inl (by rw [heq])
  · exact Or.inr (by rw [heq]; exact hscope)

theorem collect (r : Realm κ) (scopes : List ScopeId) (values : List Value) :
    KeepsLinks r (r.collect scopes values).2 := by
  refine ⟨Nat.le_refl _, fun _ => rfl, fun p => ?_⟩
  cases hp : (r.collect scopes values).2.heap.get? p with
  | none =>
    right
    rw [Realm.standsIn?, hp]
    rfl
  | some data =>
    left
    rw [Realm.standsIn?, Realm.standsIn?, hp, (get?_collect_eq_some_iff.1 hp).1]

theorem addScope (r : Realm κ) (kind : ScopeKind) (parent : Option ScopeId) :
    KeepsLinks r (r.addScope kind parent).2 := by
  refine ⟨by simp [Realm.addScope], fun t => ?_, fun _ => Or.inl rfl⟩
  by_cases ht : t.index = r.scopes.size
  · have hnone : r.scopes[t.index]? = none := Array.getElem?_eq_none (Nat.le_of_eq ht.symm)
    simp only [Realm.addScope, scope, Array.getElem?_push, if_pos ht, hnone]
    rfl
  · simp only [Realm.addScope, scope, Array.getElem?_push, if_neg ht]

theorem sync (r : Realm κ) (data : Object κ) (key : Text) : KeepsLinks r (r.sync data key) := by
  unfold Realm.sync
  split
  · exact .modifyScope fun scope => rfl
  · exact .refl r

theorem unlink (r : Realm κ) (data : Object κ) (key : Text) :
    KeepsLinks r (r.unlink data key) := by
  unfold Realm.unlink
  split
  · exact .modifyScope fun scope => rfl
  · exact .refl r

theorem assign {key : Text} {v : Value} (ha : r.assign o key v = .ok (.stored r')) :
    KeepsLinks r r' := by
  obtain ⟨data, data', hd, hdata, rfl⟩ := assign_eq_stored ha
  exact (replaceObject hd (Object.scope_of_assign hdata)).trans (sync _ data' key)

theorem assignName {name : String} {v : Value} (ha : r.assignName s name v = .ok (.stored r')) :
    KeepsLinks r r' := by
  obtain ⟨t, -, hstores⟩ := assignIn_eq_stored ha
  cases hstores with
  | lexical hb hassign => exact .modifyScope fun scope => rfl
  | var hb hassign hl => exact .modifyScope fun scope => rfl
  | property hl hassign => exact .assign hassign

theorem define {key : Text} {d : Descriptor} (h : r.define o key d = .ok r') :
    KeepsLinks r r' := by
  obtain ⟨data, data', hd, hdata, rfl⟩ := define_eq_ok h
  exact (replaceObject hd (Object.scope_of_define hdata)).trans (sync _ data' key)

theorem delete {key : Text} {b : Bool} (h : r.delete o key = .ok (b, r')) : KeepsLinks r r' := by
  rcases delete_eq_ok h with rfl | ⟨data, data', hd, ⟨hdata, rfl⟩ | ⟨hdata, rfl⟩⟩
  · exact .refl r'
  · have hscope : data'.scope = data.scope := by rw [Object.delete_eq_property hdata]
    exact (replaceObject hd hscope).trans (unlink _ data' key)
  · exact replaceObject hd (Object.scope_of_delete hdata)

theorem createConstructor (r : Realm κ) (call construct : Callable κ) :
    KeepsLinks r (r.createConstructor call construct).2 := by
  unfold Realm.createConstructor
  dsimp only
  have hfunc : KeepsLinks r (r.createFunction call).2 := allocate r rfl
  have hproto : KeepsLinks r (r.createFunction call).2.createObject.2 :=
    hfunc.trans (allocate _ rfl)
  refine (hproto.trans (modifyObject ?_)).trans (modifyObject ?_)
  · exact fun data _ => rfl
  · exact fun data _ => rfl

theorem settles {req : Request κ} {name : String} {v : Value} {f : Option Fault}
    (h : r.Settles req name v f r') : KeepsLinks r r' := by
  cases h with
  | kept hw => exact .refl r
  | lexical hw s b => exact .modifyScope fun scope => rfl
  | unlinked hw hl => exact .modifyScope (linked_of_varWrite? hw)
  | dead hw hl hd => exact .modifyScope (linked_of_varWrite? hw)
  | published hp hw hl hd =>
    refine (modifyScope (linked_of_varWrite? hw)).trans (replaceObject hd ?_)
    rfl
  | adopted hp hw hl hd hown hr =>
    rcases hr with rfl | ⟨u, -, rfl⟩
    · exact .modifyScope (linked_of_varWrite? hw)
    · exact (modifyScope (linked_of_varWrite? hw)).trans (.modifyScope fun scope => rfl)
  | added hp hw hl hd hown deletable =>
    refine (modifyScope (linked_of_varWrite? hw)).trans (replaceObject hd ?_)
    rfl

end KeepsLinks

/-- Only linking changes the notes of scopes and gives objects new ones. -/
theorem Step.keepsLinks {allowed : Request κ → Prop} (h : Step allowed r r') :
    KeepsLinks r r' ∨ ∃ s o, allowed (.link s o) ∧ r' = r.link s o := by
  cases h with
  | link ha => exact Or.inr ⟨_, _, ha, rfl⟩
  | create kind prototype => exact Or.inl (.allocate r rfl)
  | createArray ha => exact Or.inl (.allocate r rfl)
  | createFunction ha => exact Or.inl (.allocate r rfl)
  | createConstructor ha => exact Or.inl (.createConstructor r _ _)
  | createError kind message => exact Or.inl (.allocate r rfl)
  | createIterator ha =>
    rename_i code
    left
    have hproducer : KeepsLinks r { r with producers := r.producers.push ⟨code, 0, false⟩ } :=
      .of_eq rfl rfl
    exact hproducer.trans (.allocate _ rfl)
  | assign ha => exact Or.inl (.assign ha)
  | assignName ha => exact Or.inl (.assignName ha)
  | define _ hdef => exact Or.inl (.define hdef)
  | delete _ hdel => exact Or.inl (.delete hdel)
  | setPrototype _ hset =>
    left
    rcases setPrototype_eq_ok hset with rfl | ⟨data, hd, -, rfl⟩
    · exact .refl r'
    · exact .replaceObject hd rfl
  | preventExtensions _ hp =>
    left
    obtain ⟨data, hd, rfl⟩ := preventExtensions_eq_ok hp
    exact .replaceObject hd rfl
  | writeHidden ha => exact Or.inl (.modifyObject fun data _ => rfl)
  | writePrototype ha => exact Or.inl (.modifyObject fun data _ => rfl)
  | writeSlot ha => exact Or.inl (.modifyObject fun data _ => rfl)
  | writeElements ha => exact Or.inl (.modifyObject fun data _ => rfl)
  | addScope ha => exact Or.inl (.addScope r _ _)
  | createUninitialized ha => exact Or.inl (.modifyScope fun scope => rfl)
  | declare ha => exact Or.inl (.settles (settles_declare r _ _ _ _))
  | setInScope ha => exact Or.inl (.settles (settles_setInScope r _ _ _))
  | declareVar ha => exact Or.inl (.settles (settles_declareVar r _ _ _ _))
  | hoistFunction ha => exact Or.inl (.settles (settles_hoistFunction r _ _ _))
  | defineBuiltin ha =>
    left
    refine (KeepsLinks.modifyScope (s := r.globalScope) ?_).trans (.modifyObject ?_)
    · exact fun scope => rfl
    · exact fun data _ => rfl
  | collect scopes values => exact Or.inl (.collect r scopes values)
  | exhaust o p =>
    refine Or.inl (.modifyObject fun data _ => ?_)
    split
    · rfl
    · rfl
  | createSymbol ha => exact Or.inl (.of_eq rfl rfl)
  | startProducer p => exact Or.inl (.of_eq rfl rfl)
  | stopProducer p => exact Or.inl (.of_eq rfl rfl)
  | enterJoin o => exact Or.inl (.of_eq rfl rfl)
  | leaveJoin => exact Or.inl (.of_eq rfl rfl)

/-! ## Notes that agree -/

/-- The scope is there, and it is linked to the object if the object stands in for it. -/
structure Agrees (r : Realm κ) (s : ScopeId) (o : ObjectId) : Prop where
  index_lt : s.index < r.scopes.size
  linked : r.standsIn? o = some s → (r.scope s).linked = some o

/-- The requests that link a scope to no other object than a given one. -/
def LinksOnly (s : ScopeId) (o : ObjectId) (req : Request κ) : Prop :=
  ∀ p, req = .link s p → p = o

theorem size_scopes_link (r : Realm κ) (s : ScopeId) (o : ObjectId) :
    (r.link s o).scopes.size = r.scopes.size := by
  unfold link
  dsimp only
  split
  · exact Array.size_modify
  · exact Array.size_modify

theorem linked_link_self (hs : s.index < r.scopes.size) :
    ((r.link s o).scope s).linked = some o := by
  rw [scope_link, scope_modifyScope_self hs]

/-- An object that a scope is linked to stands in for that scope, and the other objects stand in for
what they did before. -/
theorem standsIn?_link {q : ObjectId} (h : (r.link t p).standsIn? q = some s) :
    q = p ∧ s = t ∨ q ≠ p ∧ r.standsIn? q = some s := by
  obtain ⟨f, hf, hkeep⟩ := heap_link r t p
  rw [standsIn?, hf, Heap.get?_modify] at h
  split at h
  · rename_i hq
    obtain ⟨data, hd, hscope⟩ := Option.bind_eq_some_iff.1 h
    obtain ⟨before, -, rfl⟩ := Option.map_eq_some_iff.1 hd
    have hnote : (f before).scope = some t :=
      hkeep (fun d => d.scope = some t) before rfl fun _ _ _ h => h
    exact Or.inl ⟨hq, Option.some.inj (hscope.symm.trans hnote)⟩
  · rename_i hq
    exact Or.inr ⟨hq, h⟩

theorem agrees_link (hs : s.index < r.scopes.size) : (r.link s o).Agrees s o := by
  refine ⟨?_, fun _ => linked_link_self hs⟩
  rw [size_scopes_link]
  exact hs

namespace Agrees

theorem keepsLinks (h : r.Agrees s o) (hk : KeepsLinks r r') : r'.Agrees s o := by
  refine ⟨Nat.lt_of_lt_of_le h.index_lt hk.size_le, fun ho => ?_⟩
  rw [hk.linked]
  rcases hk.standsIn? o with heq | hnone
  · rw [heq] at ho
    exact h.linked ho
  · rw [hnone] at ho
    cases ho

/-- Linking the scope to the same object again, or any other scope to whatever object. -/
theorem link (h : r.Agrees s o) (hp : t = s → p = o) : (r.link t p).Agrees s o := by
  by_cases ht : t = s
  · obtain rfl := ht
    obtain rfl := hp rfl
    exact agrees_link h.index_lt
  · refine ⟨?_, fun ho => ?_⟩
    · rw [size_scopes_link]
      exact h.index_lt
    · rw [scope_link, scope_modifyScope_ne fun hs => ht hs.symm]
      rcases standsIn?_link ho with ⟨-, hs⟩ | ⟨-, hbefore⟩
      · exact absurd hs.symm ht
      · exact h.linked hbefore

theorem step (h : r.Agrees s o) (hs : Step (LinksOnly s o) r r') : r'.Agrees s o := by
  rcases hs.keepsLinks with hk | ⟨t, p, ha, rfl⟩
  · exact h.keepsLinks hk
  · refine h.link fun ht => ha p ?_
    rw [ht]

theorem leadsTo (h : r.Agrees s o) (hl : LeadsTo (LinksOnly s o) r r') : r'.Agrees s o := by
  have hsteps := hl.steps
  clear hl
  induction hsteps with
  | refl => exact h
  | tail _ hs ih => exact ih.step hs

end Agrees

/-! ## Variables behind properties -/

variable {key : Text} {x : String}

theorem sync_cases (r : Realm κ) (data : Object κ) (key : Text) :
    r.sync data key = r ∨ ∃ t f, data.scope = some t ∧ r.sync data key = r.modifyScope t f := by
  unfold sync
  split
  · rename_i t v name ht hv hname
    exact Or.inr ⟨t, _, ht, rfl⟩
  · exact Or.inl rfl

theorem unlink_cases (r : Realm κ) (data : Object κ) (key : Text) :
    r.unlink data key = r ∨
      ∃ t f, data.scope = some t ∧ r.unlink data key = r.modifyScope t f := by
  unfold unlink
  split
  · rename_i t name ht hname
    exact Or.inr ⟨t, _, ht, rfl⟩
  · exact Or.inl rfl

/-- Where an object is replaced and at most the scope that it stands in for is changed, no variable
of another scope is. -/
theorem standsIn?_of_vars_ne {data data' : Object κ} (hd : r.heap.get? o = some data)
    (hscope : data'.scope = data.scope)
    (hr : r' = r.replaceObject o data' ∨
      ∃ t f, data'.scope = some t ∧ r' = (r.replaceObject o data').modifyScope t f)
    (hx : (r'.scope s).vars.get? x ≠ (r.scope s).vars.get? x) : r.standsIn? o = some s := by
  rcases hr with rfl | ⟨t, f, ht, rfl⟩
  · exact absurd rfl hx
  · by_cases hst : s = t
    · rw [standsIn?, hd, Option.bind_some, ← hscope, ht, hst]
    · rw [scope_modifyScope_ne hst] at hx
      exact absurd rfl hx

theorem standsIn?_of_assign {v : Value} (ha : r.assign o key v = .ok (.stored r'))
    (hx : (r'.scope s).vars.get? x ≠ (r.scope s).vars.get? x) : r.standsIn? o = some s := by
  obtain ⟨data, data', hd, hdata, rfl⟩ := assign_eq_stored ha
  exact standsIn?_of_vars_ne hd (Object.scope_of_assign hdata) (sync_cases _ data' key) hx

theorem standsIn?_of_define {d : Descriptor} (h : r.define o key d = .ok r')
    (hx : (r'.scope s).vars.get? x ≠ (r.scope s).vars.get? x) : r.standsIn? o = some s := by
  obtain ⟨data, data', hd, hdata, rfl⟩ := define_eq_ok h
  exact standsIn?_of_vars_ne hd (Object.scope_of_define hdata) (sync_cases _ data' key) hx

theorem standsIn?_of_delete {b : Bool} (h : r.delete o key = .ok (b, r'))
    (hx : (r'.scope s).vars.get? x ≠ (r.scope s).vars.get? x) : r.standsIn? o = some s := by
  rcases delete_eq_ok h with rfl | ⟨data, data', hd, ⟨hdata, rfl⟩ | ⟨hdata, rfl⟩⟩
  · exact absurd rfl hx
  · have hscope : data'.scope = data.scope := by rw [Object.delete_eq_property hdata]
    exact standsIn?_of_vars_ne hd hscope (unlink_cases _ data' key) hx
  · exact absurd rfl hx

end Realm

/-- The object whose property a request assigns, defines or deletes. -/
def Request.changesPropertyOf? : Request κ → Option ObjectId
  | set o _ _ | define o _ _ | delete o _ => some o
  | _ => none

namespace Engine

variable {e : Engine κ σ} {w : World κ σ} {req : Request κ} {s : ScopeId} {o : ObjectId}
  {x : String}

/-- A variable changes through a property only if the object stands in for the scope. -/
theorem standsIn?_of_vars_changed (hreq : req.changesPropertyOf? = some o)
    (hset : w.realm.callsSetter req = false)
    (hx : ((e.perform req w).2.realm.scope s).vars.get? x ≠ (w.realm.scope s).vars.get? x) :
    w.realm.standsIn? o = some s := by
  cases req with
  | set p key v =>
    obtain rfl := Option.some.inj hreq
    rw [perform] at hx
    rcases e.set_cases hset with hw | ⟨r', ha, hw⟩
    · rw [hw] at hx
      exact absurd rfl hx
    · rw [hw] at hx
      exact Realm.standsIn?_of_assign ha hx
  | define p key d =>
    obtain rfl := Option.some.inj hreq
    simp only [perform, Action.changeOrFail] at hx
    cases hdefine : w.realm.define p key d with
    | error f =>
      rw [hdefine] at hx
      exact absurd rfl hx
    | ok r' =>
      rw [hdefine] at hx
      exact Realm.standsIn?_of_define hdefine hx
  | delete p key =>
    obtain rfl := Option.some.inj hreq
    simp only [perform, Action.changeOrFail] at hx
    cases hdelete : w.realm.delete p key with
    | error f =>
      rw [hdelete] at hx
      exact absurd rfl hx
    | ok result =>
      rw [hdelete] at hx
      exact Realm.standsIn?_of_delete hdelete hx
  | _ => cases hreq

/-- Assigning, defining or deleting a property changes or removes a variable of a scope only if the
object stands in for the scope. The scope is then linked to the object, provided that it has been
linked to no other one since the two agreed. Setters are left out, as they may do anything. -/
theorem linked_of_vars_changed (hreq : req.changesPropertyOf? = some o)
    (hset : w.realm.callsSetter req = false)
    (hx : ((e.perform req w).2.realm.scope s).vars.get? x ≠ (w.realm.scope s).vars.get? x) :
    w.realm.standsIn? o = some s ∧
      ∀ r : Realm κ, r.Agrees s o → Realm.LeadsTo (Realm.LinksOnly s o) r w.realm →
        (w.realm.scope s).linked = some o := by
  have hstands := standsIn?_of_vars_changed hreq hset hx
  refine ⟨hstands, fun r hr hleads => ?_⟩
  exact (hr.leadsTo hleads).linked hstands

/-- Deleting the property of a variable from the object that its scope is linked to. -/
theorem linked_of_vars_changed_deleted :
    let r : Realm Unit := [.addScope .function (some ⟨0⟩), .declare ⟨1⟩ "x" .varName .null,
      .create .ordinary none].foldl Realm.answer (Realm.fresh {})
    let linked := ((r.link ⟨1⟩ ⟨10⟩).create .ordinary none).2
    let req : Request Unit := .delete ⟨10⟩ (.ofString "x")
    let e : Engine Unit Unit := Library.silent.engine 1
    (r.link ⟨1⟩ ⟨10⟩).Agrees ⟨1⟩ ⟨10⟩ ∧
      Realm.LeadsTo (Realm.LinksOnly ⟨1⟩ ⟨10⟩) (r.link ⟨1⟩ ⟨10⟩) linked ∧
      (linked.scope ⟨1⟩).vars.get? "x" = some (.init .varName .null) ∧
      ((e.perform req ⟨linked, ()⟩).2.realm.scope ⟨1⟩).vars.get? "x" = none ∧
      (linked.scope ⟨1⟩).linked = some ⟨10⟩ := by
  intro r linked req e
  have hr : (r.link ⟨1⟩ ⟨10⟩).Agrees ⟨1⟩ ⟨10⟩ := Realm.agrees_link (by decide +kernel)
  have hleads : Realm.LeadsTo (Realm.LinksOnly ⟨1⟩ ⟨10⟩) (r.link ⟨1⟩ ⟨10⟩) linked :=
    Realm.LeadsTo.refl.step (.create _ .ordinary none)
  have hbefore : (linked.scope ⟨1⟩).vars.get? "x" = some (.init .varName .null) := by
    decide +kernel
  have hafter : ((e.perform req ⟨linked, ()⟩).2.realm.scope ⟨1⟩).vars.get? "x" = none := by
    decide +kernel
  have hx : ((e.perform req ⟨linked, ()⟩).2.realm.scope ⟨1⟩).vars.get? "x" ≠
      (linked.scope ⟨1⟩).vars.get? "x" := by
    rw [hbefore, hafter]
    nofun
  obtain ⟨-, hlinked⟩ := linked_of_vars_changed (w := ⟨linked, ()⟩) rfl rfl hx
  exact ⟨hr, hleads, hbefore, hafter, hlinked _ hr hleads⟩

/-- A scope is linked to one object and then to another one. The first object still stands in for
it: deleting its property removes the variable. -/
theorem variable_removed_by_former_partner :
    let r : Realm Unit := [.addScope .function (some ⟨0⟩), .declare ⟨1⟩ "x" .varName .null,
      .create .ordinary none, .link ⟨1⟩ ⟨10⟩, .create .ordinary none, .link ⟨1⟩ ⟨11⟩].foldl
        Realm.answer (Realm.fresh {})
    let e : Engine Unit Unit := Library.silent.engine 1
    let result := e.perform (.delete ⟨10⟩ (.ofString "x")) ⟨r, ()⟩
    Realm.Reached (fun _ => True) {} r ∧ (r.scope ⟨1⟩).linked = some ⟨11⟩ ∧
      (r.scope ⟨1⟩).vars.get? "x" = some (.init .varName .null) ∧
      (result.2.realm.scope ⟨1⟩).vars.get? "x" = none := by
  intro r e result
  refine ⟨Realm.Reached.fresh.requests _ fun _ _ => trivial, ?_, ?_, ?_⟩
  · decide +kernel
  · decide +kernel
  · decide +kernel

end Engine

end Ecma
