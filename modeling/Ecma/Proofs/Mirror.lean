import Ecma.Proofs.Arena
import Ecma.Proofs.CodePoint

/-!
# The global object mirrors the global variables

A variable of the global scope is stored twice: as a binding, and as a property of the global
object. `Realm.Mirrored` is the invariant that keeps the two copies together. Only the global scope
and the global object are linked to each other, and every variable has a property of its name that
holds its value or has accessors. Requests that go through the checks of the realm keep it
(`Mirrored.step`), so it holds in every realm that they lead to (`mirrored_of_reached`).
-/

namespace Ecma

variable {κ : Type}

/-- The requests that go through the checks of the realm: all but linking another object to a scope
and writing to the fields of an object past the operations. -/
def Request.Checked : Request κ → Prop
  | .link .. | .writeHidden .. | .writePrototype .. | .writeSlot .. | .writeElements .. => False
  | _ => True

/-! ## Variables and properties -/

/-- Every variable has a property of its name, which holds its value or has accessors. -/
def Tracks (vars : OrderedMap String Binding) (properties : OrderedMap Text Property) : Prop :=
  ∀ name b, vars.get? name = some b →
    ∃ p, properties.get? (.ofString name) = some p ∧ ∀ v, p.value? = some v → v = b.value

/-- The variables after a value was written to one of them, and to no other. -/
structure WritesVar (name : String) (v : Value) (vars vars' : OrderedMap String Binding) :
    Prop where
  get?_ne : ∀ x, x ≠ name → vars'.get? x = vars.get? x
  value_eq : ∀ b, vars'.get? name = some b → b.value = v

theorem writesVar_insert {name : String} {v : Value} {b : Binding} (hb : b.value = v)
    (vars : OrderedMap String Binding) : WritesVar name v vars (vars.insert name b) := by
  refine ⟨fun x hx => ?_, fun b' hb' => ?_⟩
  · rw [OrderedMap.get?_insert, if_neg hx]
  · rw [OrderedMap.get?_insert, if_pos rfl] at hb'
    rw [← Option.some.inj hb', hb]

theorem writesVar_modify (name : String) (v : Value) (vars : OrderedMap String Binding) :
    WritesVar name v vars (vars.modify name (·.withValue v)) := by
  refine ⟨fun x hx => ?_, fun b hb => ?_⟩
  · rw [OrderedMap.get?_modify, if_neg hx]
  · rw [OrderedMap.get?_modify, if_pos rfl] at hb
    obtain ⟨b', -, rfl⟩ := Option.map_eq_some_iff.1 hb
    rfl

/-- Of two values written to a variable, the second counts. -/
theorem WritesVar.trans {name : String} {u v : Value}
    {vars vars' vars'' : OrderedMap String Binding} (h : WritesVar name u vars vars')
    (h' : WritesVar name v vars' vars'') : WritesVar name v vars vars'' := by
  refine ⟨fun x hx => ?_, h'.value_eq⟩
  rw [h'.get?_ne x hx, h.get?_ne x hx]

namespace Tracks

variable {vars vars' : OrderedMap String Binding} {properties : OrderedMap Text Property}

/-- Writing a variable, and a property of its name with the same value or with accessors. -/
theorem put (h : Tracks vars properties) {name : String} {v : Value} {p : Property}
    (hw : WritesVar name v vars vars') (hp : ∀ u, p.value? = some u → u = v) :
    Tracks vars' (properties.insert (.ofString name) p) := by
  intro x b hx
  rw [OrderedMap.get?_insert]
  by_cases hxn : x = name
  · subst hxn
    exact ⟨p, if_pos rfl, fun u hu => by rw [hw.value_eq b hx, hp u hu]⟩
  · rw [hw.get?_ne x hxn] at hx
    obtain ⟨q, hq, hqv⟩ := h x b hx
    exact ⟨q, by rw [if_neg fun e => hxn (Text.ofString_inj.1 e), hq], hqv⟩

/-- Writing a variable whose property has the value already, or has accessors. -/
theorem put_of_get? (h : Tracks vars properties) {name : String} {v : Value} {p : Property}
    (hw : WritesVar name v vars vars') (hget : properties.get? (.ofString name) = some p)
    (hp : ∀ u, p.value? = some u → u = v) : Tracks vars' properties := by
  intro x b hx
  by_cases hxn : x = name
  · subst hxn
    exact ⟨p, hget, fun u hu => by rw [hw.value_eq b hx, hp u hu]⟩
  · rw [hw.get?_ne x hxn] at hx
    exact h x b hx

/-- Storing a property that names no variable, or one without a value. -/
theorem insert (h : Tracks vars properties) {key : Text} {p : Property}
    (hp : ∀ name, key = .ofString name → p.value? = none) :
    Tracks vars (properties.insert key p) := by
  intro x b hx
  rw [OrderedMap.get?_insert]
  split
  · rename_i hk
    refine ⟨p, rfl, fun v hv => ?_⟩
    rw [hp x hk.symm] at hv
    cases hv
  · exact h x b hx

/-- Dropping both sides of a name. -/
theorem erase (h : Tracks vars properties) {key : Text}
    (hvars : ∀ x, vars'.get? x = if key = .ofString x then none else vars.get? x) :
    Tracks vars' (properties.erase key) := by
  intro x b hx
  rw [hvars] at hx
  split at hx
  · cases hx
  · rename_i hk
    rw [OrderedMap.get?_erase, if_neg fun e => hk e.symm]
    exact h x b hx

end Tracks

namespace Realm

/-! ## The invariant -/

/-- The global scope and the global object are linked to each other, nothing else is linked, and the
global object lives, has no dense elements and tracks the global variables. -/
structure Mirrored (r : Realm κ) : Prop where
  linked : ∀ s, (r.scope s).linked = if s = r.globalScope then some r.globalObject else none
  standsIn : ∀ o data, r.heap.get? o = some data →
    data.scope = if o = r.globalObject then some r.globalScope else none
  tracks : ∃ data, r.heap.get? r.globalObject = some data ∧ data.elements = none ∧
    Tracks (r.scope r.globalScope).vars data.properties

namespace Mirrored

variable {r : Realm κ}

theorem globalScope_lt (h : r.Mirrored) : r.globalScope.index < r.scopes.size := by
  by_contra hlt
  have hl := h.linked r.globalScope
  rw [if_pos rfl, scope, Array.getElem?_eq_none (Nat.le_of_not_lt hlt)] at hl
  cases hl

theorem linked_of_ne (h : r.Mirrored) {s : ScopeId} (hs : s ≠ r.globalScope) :
    (r.scope s).linked = none := by
  rw [h.linked, if_neg hs]

theorem eq_global_of_linked (h : r.Mirrored) {s : ScopeId} {o : ObjectId}
    (hl : (r.scope s).linked = some o) : s = r.globalScope ∧ o = r.globalObject := by
  rw [h.linked] at hl
  split at hl
  · rename_i hs
    exact ⟨hs, (Option.some.inj hl).symm⟩
  · cases hl

theorem tracks_of_get? (h : r.Mirrored) {data : Object κ}
    (hd : r.heap.get? r.globalObject = some data) :
    data.elements = none ∧ Tracks (r.scope r.globalScope).vars data.properties := by
  obtain ⟨global, hg, hge, hgt⟩ := h.tracks
  rw [hd] at hg
  obtain rfl := Option.some.inj hg
  exact ⟨hge, hgt⟩

/-- A change that keeps the links and the handles of the global pair only has to keep track of the
global variables. -/
theorem of_frame (h : r.Mirrored) {r' : Realm κ} (hs : r'.globalScope = r.globalScope)
    (ho : r'.globalObject = r.globalObject)
    (hlinked : ∀ s, (r'.scope s).linked = (r.scope s).linked)
    (hstands : ∀ o data', r'.heap.get? o = some data' →
      ∃ data, r.heap.get? o = some data ∧ data'.scope = data.scope)
    (htracks : ∃ data', r'.heap.get? r.globalObject = some data' ∧ data'.elements = none ∧
      Tracks (r'.scope r.globalScope).vars data'.properties) : r'.Mirrored := by
  refine ⟨fun s => ?_, fun o data' hd' => ?_, ?_⟩
  · rw [hlinked, h.linked, hs, ho]
  · obtain ⟨data, hd, hsc⟩ := hstands o data' hd'
    rw [hsc, h.standsIn o data hd, hs, ho]
  · rw [hs, ho]
    exact htracks

/-! ## Changes of scopes and of objects -/

/-- Changing the names of a scope, as long as the global object still tracks the variables. -/
theorem modifyScope (h : r.Mirrored) {s : ScopeId} {f : Scope → Scope}
    (hf : ∀ scope, (f scope).linked = scope.linked)
    (ht : s = r.globalScope → ∀ data, r.heap.get? r.globalObject = some data →
      Tracks (r.scope s).vars data.properties → Tracks (f (r.scope s)).vars data.properties) :
    (r.modifyScope s f).Mirrored := by
  obtain ⟨data, hd, he, htr⟩ := h.tracks
  refine h.of_frame rfl rfl (scope_modifyScope_frame hf r s) (fun o data hd => ⟨data, hd, rfl⟩)
    ⟨data, hd, he, ?_⟩
  by_cases hs : r.globalScope = s
  · subst hs
    rw [scope_modifyScope_self h.globalScope_lt]
    exact ht rfl data hd htr
  · rw [scope_modifyScope_ne hs]
    exact htr

/-- An object that replaces one with the same link leaves all links as they were. -/
theorem scope_of_get?_replace {o : ObjectId} {data data' : Object κ}
    (hd : r.heap.get? o = some data) (hs : data'.scope = data.scope) {p : ObjectId} {d : Object κ}
    (hp : (r.heap.replace o data').get? p = some d) :
    ∃ before, r.heap.get? p = some before ∧ d.scope = before.scope := by
  rw [Heap.get?_replace, hd] at hp
  split at hp
  · rename_i hpo
    exact ⟨data, hpo ▸ hd, by rw [← Option.some.inj hp, hs]⟩
  · exact ⟨d, hp, rfl⟩

/-- Replacing an object by one with the same link, as long as the global object still tracks the
variables. -/
theorem replaceObject (h : r.Mirrored) {o : ObjectId} {data data' : Object κ}
    (hd : r.heap.get? o = some data) (hs : data'.scope = data.scope)
    (he : data.elements = none → data'.elements = none)
    (ht : o = r.globalObject → Tracks (r.scope r.globalScope).vars data.properties →
      Tracks (r.scope r.globalScope).vars data'.properties) :
    (r.replaceObject o data').Mirrored := by
  refine h.of_frame rfl rfl (fun s => rfl) (fun p d hp => scope_of_get?_replace hd hs hp) ?_
  rw [heap_replaceObject, Heap.get?_replace, hd]
  split
  · rename_i ho
    subst ho
    obtain ⟨hge, hgt⟩ := h.tracks_of_get? hd
    exact ⟨data', rfl, he hge, ht rfl hgt⟩
  · exact h.tracks

/-- Changing the global scope and replacing the global object together. -/
theorem replaceBoth (h : r.Mirrored) {f : Scope → Scope} {data data' : Object κ}
    (hd : r.heap.get? r.globalObject = some data)
    (hf : ∀ scope, (f scope).linked = scope.linked) (hs : data'.scope = data.scope)
    (he : data.elements = none → data'.elements = none)
    (ht : Tracks (r.scope r.globalScope).vars data.properties →
      Tracks (f (r.scope r.globalScope)).vars data'.properties) :
    ((r.modifyScope r.globalScope f).replaceObject r.globalObject data').Mirrored := by
  obtain ⟨hge, hgt⟩ := h.tracks_of_get? hd
  have hscope : ((r.modifyScope r.globalScope f).replaceObject r.globalObject data').scope
      r.globalScope = f (r.scope r.globalScope) := scope_modifyScope_self h.globalScope_lt f
  refine h.of_frame rfl rfl (scope_modifyScope_frame hf r _)
    (fun p d hp => scope_of_get?_replace hd hs hp) ⟨data', ?_, he hge, ?_⟩
  · rw [heap_replaceObject, heap_modifyScope, Heap.get?_replace, if_pos rfl, hd]
    rfl
  · rw [hscope]
    exact ht hgt

/-! ## Properties -/

/-- Storing a property, and its value in the variable of that name. -/
theorem storeProperty (h : r.Mirrored) {o : ObjectId} {data : Object κ}
    (hd : r.heap.get? o = some data) (key : Text) (p : Property) :
    ((r.replaceObject o (data.putProperty key p)).sync (data.putProperty key p) key).Mirrored := by
  have hget : (data.putProperty key p).properties.get? key = some p := by
    simp [Object.putProperty, OrderedMap.get?_insert]
  have hstands : (data.putProperty key p).scope = if o = r.globalObject then some r.globalScope
    else none := h.standsIn o data hd
  unfold sync
  split
  · rename_i s v name hs hv hname
    rw [hget, Option.bind_some] at hv
    rw [hs] at hstands
    split at hstands
    · rename_i ho
      subst ho
      rw [Option.some.inj hstands]
      obtain rfl := Text.toString?_eq_some_iff.1 hname
      refine h.replaceBoth hd (f := fun scope => scope.setVar name v) (fun scope => rfl) rfl id
        fun ht => ht.put (writesVar_modify name v _) fun u hu => ?_
      rw [hv] at hu
      exact (Option.some.inj hu).symm
    · cases hstands
  · -- no variable is written, so the property has no value or its key names no variable
    rename_i hno
    refine h.replaceObject hd rfl id fun ho ht => ht.insert fun name hk => ?_
    rw [hget, Option.bind_some, hstands, if_pos ho] at hno
    cases hv : p.value? with
    | none => rfl
    | some v => exact absurd (Text.toString?_eq_some_iff.2 hk) (hno _ v name rfl hv)

/-- Deleting a property, and the variable of that name. -/
theorem dropProperty (h : r.Mirrored) {o : ObjectId} {data data' : Object κ} {key : Text}
    (hd : r.heap.get? o = some data)
    (hd' : data' = { data with properties := data.properties.erase key }) :
    ((r.replaceObject o data').unlink data' key).Mirrored := by
  subst hd'
  have hstands := h.standsIn o data hd
  unfold unlink
  split
  · rename_i s name hs hname
    rw [show data.scope = some s from hs] at hstands
    split at hstands
    · rename_i ho
      subst ho
      rw [Option.some.inj hstands]
      obtain rfl := Text.toString?_eq_some_iff.1 hname
      refine h.replaceBoth hd (f := fun scope => scope.dropVar name) (fun scope => rfl) rfl id
        fun ht => ht.erase fun x => ?_
      simp only [Scope.dropVar, Scope.unmarkHoisted, OrderedMap.get?_erase, Text.ofString_inj,
        eq_comm]
    · cases hstands
  · rename_i hno
    refine h.replaceObject hd rfl id fun ho ht => ht.erase fun x => ?_
    rw [if_pos ho] at hstands
    rw [if_neg fun hk => hno _ x hstands (Text.toString?_eq_some_iff.2 hk)]

/-- Only objects that are linked to nothing have dense elements that can change. -/
theorem changeElements (h : r.Mirrored) {o : ObjectId} {data : Object κ}
    (hd : r.heap.get? o = some data) (key : Text) (he : data.elements.isSome)
    {elements : Array Value} :
    ((r.replaceObject o { data with elements := some elements }).sync
      { data with elements := some elements } key).Mirrored := by
  have ho : o ≠ r.globalObject := by
    rintro rfl
    rw [(h.tracks_of_get? hd).1] at he
    cases he
  have hsc : data.scope = none := by rw [h.standsIn o data hd, if_neg ho]
  have hsync : (r.replaceObject o { data with elements := some elements }).sync
      { data with elements := some elements } key =
      r.replaceObject o { data with elements := some elements } := by
    unfold sync
    rw [show ({ data with elements := some elements } : Object κ).scope = none from hsc]
  rw [hsync]
  exact h.replaceObject hd rfl (fun hn => by simp [hn] at he) fun e => absurd e ho

theorem assign (h : r.Mirrored) {r' : Realm κ} {o : ObjectId} {key : Text} {v : Value}
    (ha : r.assign o key v = .ok (.stored r')) : r'.Mirrored := by
  obtain ⟨data, data', hd, hs, rfl⟩ := assign_eq_stored ha
  rcases Object.assign_eq_object hs with ⟨p, -, rfl⟩ | ⟨he, elements, rfl, -⟩
  · exact h.storeProperty hd key p
  · exact h.changeElements hd key he

theorem define (h : r.Mirrored) {r' : Realm κ} {o : ObjectId} {key : Text} {d : Descriptor}
    (hdef : r.define o key d = .ok r') : r'.Mirrored := by
  obtain ⟨data, data', hd, hs, rfl⟩ := define_eq_ok hdef
  rcases Object.define_eq_ok hs with rfl | ⟨he, elements, rfl, -⟩
  · exact h.storeProperty hd key _
  · exact h.changeElements hd key he

theorem delete (h : r.Mirrored) {r' : Realm κ} {o : ObjectId} {key : Text} {b : Bool}
    (hdel : r.delete o key = .ok (b, r')) : r'.Mirrored := by
  rcases delete_eq_ok hdel with rfl | ⟨data, data', hd, ⟨hp, rfl⟩ | ⟨hp, rfl⟩⟩
  · exact h
  · exact h.dropProperty hd (Object.delete_eq_property hp)
  · rcases Object.delete_eq_element hp with rfl | ⟨he, elements, rfl, -⟩
    · exact h.replaceObject hd rfl id fun _ ht => ht
    · exact h.replaceObject hd rfl (fun hn => by simp [hn] at he) fun _ ht => ht

/-! ## Names -/

/-- Writing a variable of a scope, and its value to the object that is linked to the scope. -/
theorem publishVar (h : r.Mirrored) {s : ScopeId} {name : String} {v : Value} {f : Scope → Scope}
    (hf : ∀ scope, (f scope).linked = scope.linked)
    (hw : WritesVar name v (r.scope s).vars (f (r.scope s)).vars) :
    ((r.modifyScope s f).publishLinked (r.scope s).linked name v).2.Mirrored := by
  by_cases hs : s = r.globalScope
  · subst hs
    obtain ⟨data, hd, -, -⟩ := h.tracks
    rw [h.linked, if_pos rfl]
    simp only [publishLinked, publish, heap_modifyScope, hd]
    refine h.replaceBoth hd hf rfl id fun ht => ht.put hw fun u hu => ?_
    split at hu
    · rename_i p hp
      cases p with
      | data w wr e c => exact (Option.some.inj hu).symm
      | accessor get set e c => cases hu
    · exact (Option.some.inj hu).symm
  · rw [h.linked_of_ne hs]
    exact h.modifyScope hf fun e => absurd e hs

theorem declare (h : r.Mirrored) (s : ScopeId) (name : String) (kind : BindingKind) (v : Value) :
    (r.declare s name kind v).2.Mirrored := by
  unfold Realm.declare
  dsimp only
  split
  · split
    · exact h.modifyScope (fun scope => rfl) fun _ _ _ ht => ht
    · exact h
  · refine h.publishVar (fun scope => rfl) (writesVar_insert ?_ _)
    unfold redeclareVar
    split <;> rfl

theorem setInScope (h : r.Mirrored) (s : ScopeId) (name : String) (v : Value) :
    (r.setInScope s name v).2.Mirrored := by
  unfold Realm.setInScope
  dsimp only
  split
  · split
    · exact h.modifyScope (fun scope => rfl) fun _ _ _ ht => ht
    · exact h
  · split
    · rename_i b hb
      have hv : b.value = v := by
        cases hget : (r.scope s).vars.get? name with
        | none =>
          rw [hget] at hb
          rw [← Except.ok.inj hb]
          rfl
        | some b0 =>
          rw [hget] at hb
          exact Binding.value_of_assign hb
      exact h.publishVar (fun scope => rfl) (writesVar_insert hv _)
    · exact h

theorem hoistFunction (h : r.Mirrored) (s : ScopeId) (name : String) (v : Value) :
    (r.hoistFunction s name v).2.Mirrored := by
  unfold Realm.hoistFunction
  split
  · exact h
  · split
    · exact h
    · rename_i t _
      refine h.publishVar (fun scope => ?_) ?_
      · split <;> rfl
      · split
        · exact writesVar_modify name v _
        · exact writesVar_insert (b := .init .varName v) rfl _

theorem declareVar (h : r.Mirrored) (s : ScopeId) (name : String) (v : Value) (deletable : Bool) :
    (r.declareVar s name v deletable).2.Mirrored := by
  unfold Realm.declareVar
  dsimp only
  split
  · exact h
  · split
    · rename_i hl
      have hs : s ≠ r.globalScope := by
        rintro rfl
        rw [h.linked, if_pos rfl] at hl
        cases hl
      exact h.modifyScope (fun scope => rfl) fun e => absurd e hs
    · rename_i o hl
      obtain ⟨rfl, rfl⟩ := h.eq_global_of_linked hl
      obtain ⟨data, hd, he, -⟩ := h.tracks
      -- without dense elements, the own properties are the stored ones
      have hown : data.own? (.ofString name) = data.properties.get? (.ofString name) := by
        simp [Object.own?, Object.elementProperty?, he]
      simp only [heap_modifyScope, hd, hown]
      split
      · rename_i p hp
        split
        · rename_i current hv
          rw [modifyScope_modifyScope]
          refine h.modifyScope (fun scope => rfl) fun _ d hd' ht => ?_
          rw [hd] at hd'
          rw [← Option.some.inj hd'] at ht ⊢
          refine ht.put_of_get? (.trans (writesVar_insert rfl _) (writesVar_modify name current _))
            hp fun u hu => ?_
          rw [hv] at hu
          exact (Option.some.inj hu).symm
        · rename_i hv
          refine h.modifyScope (fun scope => rfl) fun _ d hd' ht => ?_
          rw [hd] at hd'
          rw [← Option.some.inj hd'] at ht ⊢
          refine ht.put_of_get? (writesVar_insert rfl _) hp fun u hu => ?_
          rw [hv] at hu
          cases hu
      · refine h.replaceBoth hd (fun scope => rfl) rfl id fun ht => ht.put (writesVar_insert rfl _)
          fun u hu => ?_
        exact (Option.some.inj hu).symm

/-- A variable of the global scope is always assigned to through its property, since it has one. -/
theorem assignName (h : r.Mirrored) {r' : Realm κ} {s : ScopeId} {name : String} {v : Value}
    (ha : r.assignName s name v = .ok (.stored r')) : r'.Mirrored := by
  obtain ⟨t, -, hstores⟩ := assignIn_eq_stored ha
  cases hstores with
  | lexical hb ha => exact h.modifyScope (fun scope => rfl) fun _ _ _ ht => ht
  | var hb ha hl =>
    refine h.modifyScope (fun scope => rfl) ?_
    rintro rfl
    obtain ⟨data, hd, -, ht⟩ := h.tracks
    obtain ⟨p, hp, -⟩ := ht _ _ hb
    have hown : data.own? (.ofString name) = some p := by simp [Object.own?, hp]
    have hhas := hasProperty_of_own? hd hown
    have hfalse := hl _ (by rw [h.linked, if_pos rfl])
    rw [hhas] at hfalse
    cases hfalse
  | property hl ha => exact h.assign ha

theorem defineBuiltin (h : r.Mirrored) (name : String) (v : Value) :
    (r.defineBuiltin name v).Mirrored := by
  obtain ⟨data, hd, -, -⟩ := h.tracks
  have heq : r.defineBuiltin name v =
      (r.modifyScope r.globalScope fun s => s.putVar name (.init .varName v)).replaceObject
        r.globalObject (data.putHidden (.ofString name) v) := by
    show Realm.withHeap _ (r.heap.modify r.globalObject _) = _
    rw [Heap.modify_eq_replace hd]
    rfl
  rw [heq]
  refine h.replaceBoth hd (fun scope => rfl) rfl id fun ht => ht.put (writesVar_insert rfl _)
    fun u hu => ?_
  exact (Option.some.inj hu).symm

/-! ## Making and collecting objects -/

/-- Changing another object than the global one, or no properties and elements, in place. -/
theorem modifyObject (h : r.Mirrored) (o : ObjectId) {g : Object κ → Object κ}
    (hg : ∀ data, (g data).scope = data.scope) (he : ∀ data, (g data).elements = data.elements)
    (ht : o = r.globalObject → ∀ data, (g data).properties = data.properties) :
    (r.modifyObject o g).Mirrored := by
  cases hd : r.heap.get? o with
  | none =>
    rw [Realm.modifyObject, Heap.modify_of_get?_none hd]
    exact h
  | some data =>
    rw [Realm.modifyObject, Heap.modify_eq_replace hd]
    refine h.replaceObject hd (hg data) (fun hn => by rw [he, hn]) fun ho htr => ?_
    rw [ht ho]
    exact htr

theorem allocate_ne_globalObject (h : r.Mirrored) (hw : r.heap.WellFormed) (data : Object κ) :
    (r.allocate data).1 ≠ r.globalObject := by
  obtain ⟨global, hg, -, -⟩ := h.tracks
  intro e
  have hfresh : r.heap.get? (r.allocate data).1 = none := hw.allocate_fresh data
  rw [e, hg] at hfresh
  cases hfresh

/-- A new object is linked to nothing, and the global object keeps its cell. -/
theorem allocate (h : r.Mirrored) (hw : r.heap.WellFormed) {data : Object κ}
    (hs : data.scope = none) : (r.allocate data).2.Mirrored := by
  obtain ⟨global, hg, he, ht⟩ := h.tracks
  have hget : ∀ o, (r.allocate data).2.heap.get? o =
      if o = (r.allocate data).1 then some { data with id := (r.allocate data).1 }
      else r.heap.get? o := hw.get?_allocate data
  have hne := h.allocate_ne_globalObject hw data
  refine ⟨h.linked, fun o d hd => ?_, global, ?_, he, ht⟩
  · rw [hget] at hd
    split at hd
    · rename_i ho
      rw [← Option.some.inj hd, ho]
      exact hs.trans (if_neg hne).symm
    · exact h.standsIn o d hd
  · show (r.allocate data).2.heap.get? r.globalObject = some global
    rw [hget, if_neg fun e => hne e.symm, hg]

theorem createConstructor (h : r.Mirrored) (hw : r.heap.WellFormed) (call construct : Callable κ) :
    (r.createConstructor call construct).2.Mirrored := by
  have h1 : (r.createFunction call).2.Mirrored := h.allocate hw rfl
  have hw1 : (r.createFunction call).2.heap.WellFormed := hw.allocate (functionObject call)
  have hfunc : (r.createFunction call).1 ≠ (r.createFunction call).2.globalObject :=
    h.allocate_ne_globalObject hw _
  rcases hf : r.createFunction call with ⟨func, r1⟩
  rw [hf] at h1 hw1 hfunc
  have h2 : r1.createObject.2.Mirrored := h1.allocate hw1 rfl
  have hproto : r1.createObject.1 ≠ r1.createObject.2.globalObject :=
    h1.allocate_ne_globalObject hw1 _
  have hkeep : r1.createObject.2.globalObject = r1.globalObject := rfl
  rcases hp : r1.createObject with ⟨proto, r2⟩
  rw [hp] at h2 hproto hkeep
  simp only [Realm.createConstructor, hf, hp]
  refine (h2.modifyObject proto ?_ ?_ fun e => absurd e hproto).modifyObject func ?_ ?_
    fun e => absurd (e.trans hkeep) hfunc
  all_goals exact fun data => rfl

/-- The global object is a root, so a collection leaves it alone. -/
theorem collect (h : r.Mirrored) (scopes : List ScopeId) (values : List Value) :
    (r.collect scopes values).2.Mirrored := by
  obtain ⟨data, hd, he, ht⟩ := h.tracks
  refine h.of_frame rfl rfl (fun s => rfl) (fun o d ho => ⟨d, ?_, rfl⟩) ⟨data, ?_, he, ht⟩
  · exact (get?_collect_eq_some_iff.1 ho).1
  · exact get?_collect_eq_some_iff.2 ⟨hd, _, .globalObject, .refl⟩

theorem addScope (h : r.Mirrored) (kind : ScopeKind) (parent : Option ScopeId) :
    (r.addScope kind parent).2.Mirrored := by
  have hscope : ∀ s, s.index ≠ r.scopes.size → (r.addScope kind parent).2.scope s = r.scope s := by
    intro s hs
    simp [Realm.addScope, scope, Array.getElem?_push, hs]
  have hnew : ∀ s, s.index = r.scopes.size →
      ((r.addScope kind parent).2.scope s).linked = none := by
    intro s hs
    simp [Realm.addScope, scope, hs, Scope.make]
  have hglobal : r.globalScope.index ≠ r.scopes.size := Nat.ne_of_lt h.globalScope_lt
  obtain ⟨data, hd, he, ht⟩ := h.tracks
  refine h.of_frame rfl rfl (fun s => ?_) (fun o d ho => ⟨d, ho, rfl⟩) ⟨data, hd, he, ?_⟩
  · by_cases hs : s.index = r.scopes.size
    · rw [hnew s hs, scope, hs]
      simp
      rfl
    · rw [hscope s hs]
  · rw [hscope _ hglobal]
    exact ht

/-! ## Runs -/

/-- Every change that a checked request makes keeps the global object a mirror. -/
theorem step (h : r.Mirrored) (hw : r.heap.WellFormed) {r' : Realm κ}
    (hs : Step Request.Checked r r') : r'.Mirrored := by
  cases hs with
  | create kind prototype => exact h.allocate hw rfl
  | createArray ha => exact h.allocate hw rfl
  | createFunction ha => exact h.allocate hw rfl
  | createConstructor ha => exact h.createConstructor hw _ _
  | createError kind message => exact h.allocate hw rfl
  | createIterator ha =>
    rename_i code
    have hp : Mirrored { r with producers := r.producers.push ⟨code, 0, false⟩ } :=
      ⟨h.linked, h.standsIn, h.tracks⟩
    exact hp.allocate hw rfl
  | assign ha => exact h.assign ha
  | assignName ha => exact h.assignName ha
  | define _ hdef => exact h.define hdef
  | delete _ hdel => exact h.delete hdel
  | setPrototype _ hset =>
    rcases setPrototype_eq_ok hset with rfl | ⟨data, hd, -, rfl⟩
    · exact h
    · exact h.replaceObject hd rfl id fun _ ht => ht
  | preventExtensions _ hp =>
    obtain ⟨data, hd, rfl⟩ := preventExtensions_eq_ok hp
    exact h.replaceObject hd rfl id fun _ ht => ht
  | createUninitialized ha => exact h.modifyScope (fun scope => rfl) fun _ _ _ ht => ht
  | declare ha => exact h.declare _ _ _ _
  | setInScope ha => exact h.setInScope _ _ _
  | declareVar ha => exact h.declareVar _ _ _ _
  | hoistFunction ha => exact h.hoistFunction _ _ _
  | defineBuiltin ha => exact h.defineBuiltin _ _
  | collect scopes values => exact h.collect scopes values
  | addScope ha => exact h.addScope _ _
  | exhaust o p =>
    refine h.modifyObject o ?_ ?_ fun _ => ?_
    all_goals
      intro data
      split <;> rfl
  | writeHidden ha => exact ha.elim
  | writePrototype ha => exact ha.elim
  | writeSlot ha => exact ha.elim
  | writeElements ha => exact ha.elim
  | link ha => exact ha.elim
  | createSymbol ha => exact ⟨h.linked, h.standsIn, h.tracks⟩
  | startProducer p => exact ⟨h.linked, h.standsIn, h.tracks⟩
  | stopProducer p => exact ⟨h.linked, h.standsIn, h.tracks⟩
  | enterJoin o => exact ⟨h.linked, h.standsIn, h.tracks⟩
  | leaveJoin => exact ⟨h.linked, h.standsIn, h.tracks⟩

end Mirrored

/-- A realm in which no object is linked yet, and the only scope has no names. -/
structure Unlinked (r : Realm κ) : Prop where
  wellFormed : r.heap.WellFormed
  scopes_eq : r.scopes = #[.make .global []]
  globalScope_eq : r.globalScope = ⟨0⟩
  scope_eq : ∀ o data, r.heap.get? o = some data → data.scope = none

namespace Unlinked

variable {r : Realm κ}

theorem bare (options : Options) : (bare options : Realm κ).Unlinked := by
  refine ⟨Heap.wellFormed_empty, rfl, rfl, fun o data hd => ?_⟩
  simp [Realm.bare, Heap.empty, Heap.get?] at hd

theorem allocate (h : r.Unlinked) {data : Object κ} (hs : data.scope = none) :
    (r.allocate data).2.Unlinked := by
  refine ⟨h.wellFormed.allocate data, h.scopes_eq, h.globalScope_eq, fun o d hd => ?_⟩
  have hget := h.wellFormed.get?_allocate data o
  rw [show (r.heap.allocate data).2.get? o = some d from hd] at hget
  split at hget
  · rw [Option.some.inj hget]
    exact hs
  · exact h.scope_eq o d hget.symm

/-- Linking the first object makes it a mirror, whatever properties it is given then. -/
theorem link (h : r.Unlinked) {o : ObjectId} {data : Object κ} (hd : r.heap.get? o = some data)
    (he : data.elements = none) {g : Object κ → Object κ} (hg : ∀ d, (g d).scope = d.scope)
    (hge : ∀ d, (g d).elements = d.elements) :
    ((r.link r.globalScope o).modifyObject o g).Mirrored := by
  have hlink : r.link r.globalScope o =
      { r with
        heap := r.heap.modify o fun d => { d with scope := some ⟨0⟩ }
        scopes := #[{ Scope.make .global [] with linked := some o }]
        globalScope := ⟨0⟩
        globalObject := o } := by
    obtain ⟨heap, scopes, producers, globalScope, globalObject, nextSymbol, joining, options⟩ := r
    obtain rfl : scopes = _ := h.scopes_eq
    obtain rfl : globalScope = _ := h.globalScope_eq
    rfl
  rw [hlink]
  have hget : ∀ p, ((r.heap.modify o fun d => { d with scope := some ⟨0⟩ }).modify o g).get? p =
      if p = o then some (g { data with scope := some ⟨0⟩ }) else r.heap.get? p := by
    intro p
    rw [Heap.get?_modify, Heap.get?_modify, Heap.get?_modify, if_pos rfl, hd]
    split <;> rfl
  refine ⟨fun s => ?_, fun p d hp => ?_, _, (hget o).trans (if_pos rfl), (hge _).trans he, ?_⟩
  · obtain ⟨_ | i⟩ := s
    · rfl
    · rfl
  · show d.scope = if p = o then some ⟨0⟩ else none
    have hd' := (hget p).symm.trans hp
    split at hd'
    · rename_i hpo
      rw [← Option.some.inj hd', hg, if_pos hpo]
    · rename_i hpo
      rw [h.scope_eq p d hd', if_neg hpo]
  · intro name b hb
    cases hb

end Unlinked

theorem unlinked_intrinsics (options : Options) :
    (Intrinsic.all.foldl (fun r i => (r.allocate (intrinsicObject i)).2)
      (bare options : Realm κ)).Unlinked := by
  have hfold : ∀ (l : List Intrinsic) (r : Realm κ), r.Unlinked →
      (l.foldl (fun r i => (r.allocate (intrinsicObject i)).2) r).Unlinked := by
    intro l
    induction l with
    | nil => exact fun r hr => hr
    | cons i l ih =>
      intro r hr
      refine ih _ (hr.allocate ?_)
      cases i <;> rfl
  exact hfold _ _ (Unlinked.bare options)

theorem mirrored_fresh (options : Options) : (fresh options : Realm κ).Mirrored := by
  have hr := unlinked_intrinsics (κ := κ) options
  simp only [fresh]
  generalize Intrinsic.all.foldl (fun r i => (r.allocate (intrinsicObject i)).2) (bare options) = r
    at hr
  have hobj : r.createObject.2.heap.get? r.createObject.1 = some _ :=
    (hr.wellFormed.get?_allocate _ _).trans (if_pos rfl)
  have hr1 : r.createObject.2.Unlinked := hr.allocate rfl
  rcases hc : r.createObject with ⟨global, r1⟩
  rw [hc] at hobj hr1
  refine (hr1.link hobj rfl ?_ ?_).defineBuiltin _ _
  · exact fun d => rfl
  · exact fun d => rfl

theorem mirrored_of_reached {options : Options} {r : Realm κ}
    (h : Reached Request.Checked options r) : r.Mirrored := by
  have hboth : r.heap.WellFormed ∧ r.Mirrored := by
    refine h.induction (P := fun r => r.heap.WellFormed ∧ r.Mirrored) ?_ fun r r' hr hs => ?_
    · exact ⟨Heap.wellFormed_empty.moves (moves_fresh options), mirrored_fresh options⟩
    · exact ⟨hr.1.moves hs.moves, hr.2.step hr.1 hs⟩
  exact hboth.2

/-- In every realm that checked requests lead to, each variable of the global scope is an own
property of the global object. A property with a value holds the value of the variable. -/
theorem globalObject_mirrors_vars {options : Options} {r : Realm κ}
    (h : Reached Request.Checked options r) {name : String} {b : Binding}
    (hb : (r.scope r.globalScope).vars.get? name = some b) :
    ∃ p, r.ownProperty? r.globalObject (.ofString name) = .ok (some p) ∧
      ∀ v, p.value? = some v → v = b.value := by
  obtain ⟨data, hd, -, ht⟩ := (mirrored_of_reached h).tracks
  obtain ⟨p, hp, hv⟩ := ht name b hb
  refine ⟨p, ?_, hv⟩
  rw [ownProperty?, object_eq_ok.2 hd]
  simp [Except.map, Object.own?, hp]

/-- A variable that is declared and then assigned to shows its last value on the global object. -/
theorem globalObject_mirrors_vars_assigned :
    let declared := ((fresh {} : Realm Unit).declareVar ⟨0⟩ "x" (.boolean true) false).2
    let r := (declared.setInScope ⟨0⟩ "x" (.boolean false)).2
    Reached Request.Checked {} r ∧
      (r.scope r.globalScope).vars.get? "x" = some (.init .varName (.boolean false)) ∧
      ∃ p, r.ownProperty? r.globalObject (.ofString "x") = .ok (some p) ∧
        ∀ v, p.value? = some v → v = .boolean false := by
  intro declared r
  have h : Reached Request.Checked {} r :=
    (Reached.fresh.step (.declareVar trivial)).step (.setInScope trivial)
  have hb : (r.scope r.globalScope).vars.get? "x" = some (.init .varName (.boolean false)) := by
    decide +kernel
  exact ⟨h, hb, globalObject_mirrors_vars h hb⟩

end Realm

end Ecma
