import Ecma.Proofs.ElementEdit
import Ecma.Proofs.Linking

/-!
# What a step does to one object

A step changes at most a few objects, and each of them in one of a few ways. `Realm.Turn` lists what
can become of an object that lives before and after a step: its stored properties take in values
that the step hands over under their keys (`Realm.Supplies`), or it is assigned to, defined or
deleted from, or its dense elements are overwritten. `Realm.Step.fate` is the one place where the
steps are opened for this: an invariant of objects is shown turn by turn.
-/

namespace Ecma

variable {κ : Type}

/-- Accessors stay, and a property with a value gets the new one. -/
theorem Property.mem_references_withValue {p : Property} {u v : Value}
    (h : u ∈ (p.withValue v).references) : u = v ∨ u ∈ p.references := by
  cases p with
  | data w wr e c => exact Or.inl (List.mem_singleton.1 h)
  | accessor g s e c => exact Or.inr h

namespace Descriptor

/-- The values that a descriptor gives. -/
def values (d : Descriptor) : List Value := d.value.toList ++ d.get.toList ++ d.set.toList

/-- What a completed property refers to was given, or there before, or undefined. -/
theorem mem_references_complete {d : Descriptor} {current : Option Property} {u : Value}
    (h : u ∈ (d.complete current).references) :
    u ∈ d.values ∨ (∃ p, current = some p ∧ u ∈ p.references) ∨ u = .undefined := by
  have hvalue : ∀ v, u = d.value.getD v → u ∈ d.values ∨ u = v := by
    intro v hv
    cases hd : d.value with
    | none => simp [hv, hd]
    | some x => simp [hv, hd, values]
  have haccessor : ∀ a g : Option Value, a ∈ [d.get, d.set] → a.or g = some u →
      u ∈ d.values ∨ g = some u := by
    rintro (_ | x) g ha hu
    · exact Or.inr hu
    · rw [Option.some_or] at hu
      left
      simp only [values, List.mem_append, Option.mem_toList]
      grind
  unfold complete at h
  dsimp only at h
  split at h
  · split at h
    · rename_i g s e c
      simp only [Property.references, List.mem_append, Option.mem_toList] at h
      rcases h with h | h
      · exact (haccessor _ g (by simp) h).imp_right fun hg =>
          Or.inl ⟨_, rfl, by simp [Property.references, hg]⟩
      · exact (haccessor _ s (by simp) h).imp_right fun hs =>
          Or.inl ⟨_, rfl, by simp [Property.references, hs]⟩
    · left
      simp only [Property.references, List.mem_append, Option.mem_toList] at h
      simp only [values, List.mem_append, Option.mem_toList]
      tauto
  · split at h
    · rename_i g s e c
      split at h
      · exact (hvalue _ (List.mem_singleton.1 h)).imp_right Or.inr
      · exact Or.inr (Or.inl ⟨_, rfl, h⟩)
    · rename_i v w e c
      refine (hvalue v (List.mem_singleton.1 h)).imp_right fun hv => Or.inl ⟨_, rfl, ?_⟩
      exact List.mem_singleton.2 hv
    · exact (hvalue _ (List.mem_singleton.1 h)).imp_right Or.inr

end Descriptor

/-! ## Stored properties -/

/-- The elements are as before, and what the stored properties refer to was there before or is
supplied under their keys. -/
structure Object.Takes (data : Object κ) (supplied : Text → Value → Prop) (data' : Object κ) :
    Prop where
  elements : data'.elements = data.elements
  references : ∀ key p u, data'.properties.get? key = some p → u ∈ p.references →
    supplied key u ∨ ∃ q, data.properties.get? key = some q ∧ u ∈ q.references

namespace Object.Takes

variable {data data' : Object κ} {supplied : Text → Value → Prop} {key : Text}

/-- Only properties and elements count. -/
theorem of_eq (hp : data'.properties = data.properties) (he : data'.elements = data.elements) :
    data.Takes supplied data' :=
  ⟨he, fun _ p _ hget hu => Or.inr ⟨p, hp ▸ hget, hu⟩⟩

theorem putProperty (h : data.Takes supplied data') {p : Property}
    (hp : ∀ u ∈ p.references,
      supplied key u ∨ ∃ q, data.properties.get? key = some q ∧ u ∈ q.references) :
    data.Takes supplied (data'.putProperty key p) := by
  refine ⟨h.elements, fun k q u hget hu => ?_⟩
  rw [Object.putProperty, OrderedMap.get?_insert] at hget
  split at hget
  · rename_i hk
    subst hk
    rw [← Option.some.inj hget] at hu
    exact hp u hu
  · exact h.references k q u hget hu

/-- A data property with a value that is supplied. -/
theorem putData (h : data.Takes supplied data') {v : Value} (hv : supplied key v)
    (w e c : Bool) : data.Takes supplied (data'.putProperty key (.data v w e c)) := by
  refine h.putProperty fun u hu => Or.inl ?_
  rwa [List.mem_singleton.1 hu]

end Object.Takes

/-! ## New objects -/

/-- All objects stay as they are, and those in cells that were empty have no elements. -/
structure Heap.Extends (h h' : Heap κ) : Prop where
  kept : ∀ o data, h.get? o = some data → h'.get? o = some data
  bare : ∀ o data, h.get? o = none → h'.get? o = some data → data.elements = none

namespace Heap.Extends

variable {h h' : Heap κ} {o : ObjectId}

theorem refl (h : Heap κ) : h.Extends h := by
  refine ⟨fun _ _ hd => hd, fun o data hnone hd => ?_⟩
  rw [hnone] at hd
  cases hd

theorem get?_eq_none (hx : h.Extends h') (ho : h'.get? o = none) : h.get? o = none := by
  cases hd : h.get? o with
  | none => rfl
  | some data =>
    rw [hx.kept o data hd] at ho
    cases ho

theorem allocate (hx : h.Extends h') (hw : h'.WellFormed) {data : Object κ}
    (he : data.elements = none) : h.Extends (h'.allocate data).2 := by
  refine ⟨fun o d hd => ?_, fun o d hnone hd => ?_⟩
  · rw [hw.get?_allocate, if_neg, hx.kept o d hd]
    rintro rfl
    rw [hx.get?_eq_none (hw.allocate_fresh data)] at hd
    cases hd
  · rw [hw.get?_allocate] at hd
    split at hd
    · rw [← Option.some.inj hd]
      exact he
    · exact hx.bare o d hnone hd

/-- A new object may still be changed. -/
theorem modify (hx : h.Extends h') (ho : h.get? o = none) {f : Object κ → Object κ}
    (hf : ∀ data, (f data).elements = data.elements) : h.Extends (h'.modify o f) := by
  refine ⟨fun p d hd => ?_, fun p d hnone hd => ?_⟩
  · rw [get?_modify, if_neg, hx.kept p d hd]
    rintro rfl
    rw [ho] at hd
    cases hd
  · rw [get?_modify] at hd
    split at hd
    · obtain ⟨data, hdata, rfl⟩ := Option.map_eq_some_iff.1 hd
      rw [hf, hx.bare o data ho hdata]
    · exact hx.bare p d hnone hd

end Heap.Extends

/-- A constructor is a new function, with a new object for its instances to inherit from. -/
theorem Realm.extends_createConstructor {r : Realm κ} (hw : r.heap.WellFormed)
    (call construct : Callable κ) :
    r.heap.Extends (r.createConstructor call construct).2.heap := by
  have h1 : r.heap.Extends (r.createFunction call).2.heap :=
    (Heap.Extends.refl r.heap).allocate hw rfl
  have hw1 : (r.createFunction call).2.heap.WellFormed := hw.allocate (functionObject call)
  have hfunc : r.heap.get? (r.createFunction call).1 = none := hw.allocate_fresh _
  rcases hf : r.createFunction call with ⟨func, r1⟩
  rw [hf] at h1 hw1 hfunc
  have h2 : r.heap.Extends r1.createObject.2.heap := h1.allocate hw1 rfl
  have hproto : r.heap.get? r1.createObject.1 = none := h1.get?_eq_none (hw1.allocate_fresh _)
  rcases hp : r1.createObject with ⟨proto, r2⟩
  rw [hp] at h2 hproto
  simp only [Realm.createConstructor, hf, hp]
  refine (h2.modify hproto ?_).modify hfunc ?_
  all_goals exact fun data => rfl

namespace Realm

/-! ## Supplied values -/

/-- A change hands an object a value under a key: it assigns or defines it there, declares a
variable of that name in a scope that is linked to the object, links a scope with such a variable,
or writes past all checks. -/
inductive Supplies (r : Realm κ) (o : ObjectId) (key : Text) (u : Value) (r' : Realm κ) : Prop where
  | assign (h : r.assign o key u = .ok (.stored r'))
  | define {d : Descriptor} (hu : u ∈ d.values) (h : r.define o key d = .ok r')
  | declare {req : Request κ} {name : String} {s : ScopeId} {write : Scope → Scope}
      {f : Option Fault} (hkey : key = .ofString name) (hreq : req.declared? = some (name, u))
      (hw : r.varWrite? req = some (s, write)) (hl : (r.scope s).linked = some o)
      (h : r.Settles req name u f r')
  | link {s : ScopeId} {name : String} {b : Binding} (hkey : key = .ofString name)
      (hb : (r.scope s).vars.get? name = some b) (hu : b.value = u) (h : r' = r.link s o)
  | defineBuiltin {name : String} (hkey : key = .ofString name) (ho : r.globalObject = o)
      (h : r' = r.defineBuiltin name u)
  | writeHidden (h : r' = r.modifyObject o (·.putHidden key u))
  | writeElements {elements : Option (Array Value)}
      (hu : key = lengthKey ∨
        ∃ i es, key.arrayIndex? = some i ∧ elements = some es ∧ es[i]? = some u)
      (h : r' = r.modifyObject o fun data => { data with elements := elements })

/-! ## Turns -/

/-- What becomes of an object that lives before and after a step. -/
inductive Turn (allowed : Request κ → Prop) (r : Realm κ) (o : ObjectId) (data : Object κ)
    (r' : Realm κ) (data' : Object κ) : Prop where
  | take (h : data.Takes (r.Supplies o · · r') data')
  | assign {key : Text} {v : Value} (h : r.assign o key v = .ok (.stored r'))
      (hdata : data.assign key v = .ok (.object data'))
  | define {key : Text} {d : Descriptor} (ha : allowed (.define o key d))
      (h : r.define o key d = .ok r') (hdata : data.define key d = .ok data')
  | delete {key : Text} (ha : allowed (.delete o key))
      (hdata : data.delete key = .property data' ∨ data.delete key = .element data')
  | writeElements {elements : Option (Array Value)} (ha : allowed (.writeElements o elements))
      (h : r' = r.modifyObject o fun data => { data with elements := elements })
      (hdata : data' = { data with elements := elements })

/-- What becomes of the object in a cell: it lived before and took a turn, or its cell was empty,
and if it has elements, they are those of a new array. -/
def Fate (allowed : Request κ → Prop) (r : Realm κ) (o : ObjectId) (r' : Realm κ)
    (data' : Object κ) : Prop :=
  (∃ data, r.heap.get? o = some data ∧ Turn allowed r o data r' data') ∨
    r.heap.get? o = none ∧
      ∀ elements, data'.elements = some elements → allowed (.createArray elements)

namespace Fate

variable {allowed : Request κ → Prop} {r r' : Realm κ} {o p : ObjectId} {data data' : Object κ}

/-- An object that the step leaves alone. -/
theorem kept (hd : r.heap.get? o = some data') : Fate allowed r o r' data' :=
  Or.inl ⟨data', hd, .take (.of_eq rfl rfl)⟩

theorem modify {f : Object κ → Object κ} (heap : r'.heap = r.heap.modify p f)
    (hd : r'.heap.get? o = some data')
    (hf : ∀ data, r.heap.get? p = some data → Turn allowed r p data r' (f data)) :
    Fate allowed r o r' data' := by
  rw [heap, Heap.get?_modify] at hd
  split at hd
  · rename_i ho
    subst ho
    obtain ⟨data, hdata, rfl⟩ := Option.map_eq_some_iff.1 hd
    exact Or.inl ⟨data, hdata, hf data hdata⟩
  · exact kept hd

/-- A change of anything but properties and elements. -/
theorem modify_frame {f : Object κ → Object κ} (heap : r'.heap = r.heap.modify p f)
    (hf : ∀ data, (f data).properties = data.properties ∧ (f data).elements = data.elements)
    (hd : r'.heap.get? o = some data') : Fate allowed r o r' data' :=
  modify heap hd fun data _ => .take (.of_eq (hf data).1 (hf data).2)

theorem replace (hp : r.heap.get? p = some data) {next : Object κ}
    (heap : r'.heap = r.heap.replace p next) (hd : r'.heap.get? o = some data')
    (hnext : Turn allowed r p data r' next) : Fate allowed r o r' data' := by
  refine modify heap hd fun before hbefore => ?_
  obtain rfl := Option.some.inj (hp.symm.trans hbefore)
  exact hnext

/-- A new object is in a cell that was empty. -/
theorem allocate (hw : r.heap.WellFormed) {new : Object κ}
    (heap : r'.heap = (r.heap.allocate new).2) (hd : r'.heap.get? o = some data')
    (hnew : ∀ elements, new.elements = some elements → allowed (.createArray elements)) :
    Fate allowed r o r' data' := by
  rw [heap, hw.get?_allocate] at hd
  split at hd
  · rename_i ho
    subst ho
    refine Or.inr ⟨hw.allocate_fresh new, fun elements he => hnew elements ?_⟩
    rw [← Option.some.inj hd] at he
    exact he
  · exact kept hd

/-- New objects without elements. -/
theorem of_extends (hx : r.heap.Extends r'.heap) (hd : r'.heap.get? o = some data') :
    Fate allowed r o r' data' := by
  cases hbefore : r.heap.get? o with
  | some data =>
    rw [hx.kept o data hbefore] at hd
    rw [← Option.some.inj hd]
    exact kept hbefore
  | none =>
    refine Or.inr ⟨hbefore, fun elements he => ?_⟩
    rw [hx.bare o data' hbefore hd] at he
    cases he

theorem assign {key : Text} {v : Value} (h : r.assign p key v = .ok (.stored r'))
    (hd : r'.heap.get? o = some data') : Fate allowed r o r' data' := by
  have hassign := h
  obtain ⟨data, next, hp, hdata, rfl⟩ := assign_eq_stored h
  exact replace hp (heap_sync _ _ _) hd (.assign hassign hdata)

theorem settles {req : Request κ} {name : String} {v : Value} {f : Option Fault}
    (hreq : req.declared? = some (name, v)) (h : r.Settles req name v f r')
    (hd : r'.heap.get? o = some data') : Fate allowed r o r' data' := by
  have hsettles := h
  cases h with
  | kept hw => exact kept hd
  | lexical hw s b => exact kept hd
  | unlinked hw hl => exact kept hd
  | dead hw hl hdead => exact kept hd
  | adopted hp hw hl hlive hown hr =>
    rcases hr with rfl | ⟨u, -, rfl⟩
    · exact kept hd
    · exact kept hd
  | @published s write q data hp hw hl hlive =>
    refine replace hlive rfl hd (.take ((Object.Takes.of_eq rfl rfl).putProperty fun u hu => ?_))
    -- a property with accessors keeps them, any other one has the declared value now
    have hrefers : u = v ∨ ∃ property, data.properties.get? (.ofString name) = some property ∧
        u ∈ property.references := by
      cases hget : data.properties.get? (.ofString name) with
      | none =>
        rw [hget] at hu
        exact Or.inl (List.mem_singleton.1 hu)
      | some property =>
        rw [hget] at hu
        exact (Property.mem_references_withValue hu).imp_right fun h => ⟨property, rfl, h⟩
    refine hrefers.imp_left ?_
    rintro rfl
    exact .declare rfl hreq hw hl hsettles
  | added hp hw hl hlive hown deletable =>
    refine replace hlive rfl hd (.take ((Object.Takes.of_eq rfl rfl).putData ?_ _ _ _))
    exact .declare rfl hreq hw hl hsettles

/-- Linking hands the object the variables of the scope. -/
theorem link {s : ScopeId} (hd : (r.link s p).heap.get? o = some data') :
    Fate allowed r o (r.link s p) data' := by
  obtain ⟨f, heap, hkeep⟩ := heap_link r s p
  refine modify heap hd fun data _ => .take (hkeep _ data (.of_eq rfl rfl) ?_)
  rintro ⟨name, b⟩ he d h
  refine h.putData (.link rfl ?_ rfl rfl) _ _ _
  exact (OrderedMap.mem_entries_iff _ _ _).1 he

end Fate

/-- What a step does to the object in a cell. -/
theorem Step.fate {allowed : Request κ → Prop} {r r' : Realm κ} {o : ObjectId} {data' : Object κ}
    (h : Step allowed r r') (hw : r.heap.WellFormed) (hd : r'.heap.get? o = some data') :
    Fate allowed r o r' data' := by
  cases h with
  | create kind prototype => exact .allocate hw rfl hd nofun
  | createFunction ha => exact .allocate hw rfl hd nofun
  | createError kind message => exact .allocate hw rfl hd nofun
  | createIterator ha => exact .allocate hw rfl hd nofun
  | createArray ha =>
    refine .allocate hw rfl hd fun elements he => ?_
    rwa [← Option.some.inj he]
  | createConstructor ha => exact .of_extends (extends_createConstructor hw _ _) hd
  | assign h => exact .assign h hd
  | assignName h =>
    obtain ⟨s, -, hs⟩ := assignIn_eq_stored h
    cases hs with
    | lexical hb ha => exact .kept hd
    | var hb ha hl => exact .kept hd
    | property hl ha => exact .assign ha hd
  | define ha h =>
    have hdefine := h
    obtain ⟨data, next, hp, hdata, rfl⟩ := define_eq_ok h
    exact .replace hp (heap_sync _ _ _) hd (.define ha hdefine hdata)
  | delete ha h =>
    rcases delete_eq_ok h with rfl | ⟨data, next, hp, ⟨hdel, rfl⟩ | ⟨hdel, rfl⟩⟩
    · exact .kept hd
    · exact .replace hp (heap_unlink _ _ _) hd (.delete ha (Or.inl hdel))
    · exact .replace hp rfl hd (.delete ha (Or.inr hdel))
  | setPrototype ha h =>
    rcases setPrototype_eq_ok h with rfl | ⟨data, hp, -, rfl⟩
    · exact .kept hd
    · exact .replace hp rfl hd (.take (.of_eq rfl rfl))
  | preventExtensions ha h =>
    obtain ⟨data, hp, rfl⟩ := preventExtensions_eq_ok h
    exact .replace hp rfl hd (.take (.of_eq rfl rfl))
  | writeHidden ha =>
    refine .modify rfl hd fun data _ => .take ((Object.Takes.of_eq rfl rfl).putData ?_ _ _ _)
    exact .writeHidden rfl
  | writePrototype ha => exact .modify_frame rfl (fun _ => ⟨rfl, rfl⟩) hd
  | writeSlot ha => exact .modify_frame rfl (fun _ => ⟨rfl, rfl⟩) hd
  | writeElements ha => exact .modify rfl hd fun data _ => .writeElements ha rfl rfl
  | declare ha => exact .settles rfl (settles_declare r _ _ _ _) hd
  | setInScope ha => exact .settles rfl (settles_setInScope r _ _ _) hd
  | declareVar ha => exact .settles rfl (settles_declareVar r _ _ _ _) hd
  | hoistFunction ha => exact .settles rfl (settles_hoistFunction r _ _ _) hd
  | link ha => exact .link hd
  | defineBuiltin ha =>
    refine .modify (p := r.globalObject) rfl hd fun data _ =>
      .take ((Object.Takes.of_eq rfl rfl).putData ?_ _ _ _)
    exact .defineBuiltin rfl rfl rfl
  | collect scopes values => exact .kept (get?_collect_eq_some_iff.1 hd).1
  | exhaust p producer =>
    refine .modify_frame rfl (fun data => ?_) hd
    split
    · exact ⟨rfl, rfl⟩
    · exact ⟨rfl, rfl⟩
  | createSymbol ha => exact .kept hd
  | addScope ha => exact .kept hd
  | createUninitialized ha => exact .kept hd
  | startProducer p => exact .kept hd
  | stopProducer p => exact .kept hd
  | enterJoin p => exact .kept hd
  | leaveJoin => exact .kept hd

end Realm

end Ecma
