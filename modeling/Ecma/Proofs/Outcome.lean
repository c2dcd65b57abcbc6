import Ecma.Realm.Bindings

/-!
# What the operations of a realm come to

Inversions of the operations that change properties and names: from the result of an operation to
the object or the scope that it wrote. Later proofs use these and leave the operations closed.
-/

namespace Ecma

variable {κ α β : Type}

theorem Except.bind_eq_ok {ε : Type} {x : Except ε α} {f : α → Except ε β} {b : β}
    (h : (x >>= f) = .ok b) : ∃ a, x = .ok a ∧ f a = .ok b := by
  cases x with
  | ok a => exact ⟨a, rfl, h⟩
  | error e => cases h

theorem Except.map_eq_ok {ε : Type} {x : Except ε α} {f : α → β} {b : β}
    (h : x.map f = .ok b) : ∃ a, x = .ok a ∧ f a = b := by
  cases x with
  | ok a => exact ⟨a, rfl, Except.ok.inj h⟩
  | error e => cases h

theorem Binding.value_of_assign {b b' : Binding} {name : String} {v : Value}
    (h : b.assign name v = .ok b') : b'.value = v := by
  unfold Binding.assign at h
  split at h
  · cases h
  · split at h
    · cases h
    · rw [← Except.ok.inj h]
      rfl

theorem mem_resize {elements : Array Value} {n : Nat} {v : Value} (h : v ∈ resize elements n) :
    v ∈ elements ∨ v = .undefined := by
  rcases Array.mem_append.1 h with h | h
  · obtain ⟨i, hi, rfl⟩ := Array.mem_iff_getElem.1 h
    exact Or.inl (by simp)
  · exact Or.inr (Array.mem_replicate.1 h).2

/-! ## Objects -/

namespace Object

theorem own?_of_get? {o : Object κ} {key : Text} {p : Property}
    (h : o.properties.get? key = some p) : o.own? key = some p := by
  rw [own?, h]
  rfl

/-- A value is one of the dense elements. -/
def HasElement (o : Object κ) (v : Value) : Prop :=
  ∃ elements, o.elements = some elements ∧ v ∈ elements

/-- Assigning stores a property with the value, or, where no property is stored, changes the dense
elements: the value, or undefined to fill up, may become one. -/
theorem assign_eq_object {o o' : Object κ} {key : Text} {v : Value}
    (h : o.assign key v = .ok (.object o')) :
    (∃ p, p.value? = some v ∧ o' = o.putProperty key p) ∨
      (o.elements.isSome ∧ ∃ elements, o' = { o with elements := some elements } ∧
        ∀ u ∈ elements, o.HasElement u ∨ u = v ∨ u = .undefined) := by
  have hadd : ∀ s, (if o.extensible then Stored.object (o.putProperty key (.plain v))
      else .ignored) = s → s = .object o' →
      ∃ p : Property, p.value? = some v ∧ o' = o.putProperty key p := by
    rintro s rfl hs
    split at hs
    · exact ⟨.plain v, rfl, (Stored.object.inj hs).symm⟩
    · cases hs
  unfold assign at h
  split at h
  · cases h
  · cases h
  · rename_i w e c hp
    split at h
    · exact Or.inl ⟨.data v w e c, rfl, (Stored.object.inj (Except.ok.inj h)).symm⟩
    · cases h
  · unfold assignAbsent at h
    dsimp only at h
    split at h
    · exact Or.inl (hadd _ rfl (Except.ok.inj h))
    · rename_i elements he
      have hsome : o.elements.isSome := by simp [he]
      have hhas : ∀ u ∈ elements, o.HasElement u := fun u hu => ⟨elements, he, hu⟩
      split at h
      · obtain ⟨n, -, hn⟩ := Except.bind_eq_ok h
        refine Or.inr ⟨hsome, _, (Stored.object.inj (Except.ok.inj hn)).symm, fun u hu => ?_⟩
        exact (mem_resize hu).imp (hhas u) Or.inr
      · split at h
        · exact Or.inl (hadd _ rfl (Except.ok.inj h))
        · split at h
          · refine Or.inr ⟨hsome, _, (Stored.object.inj (Except.ok.inj h)).symm, fun u hu => ?_⟩
            exact (Array.mem_or_eq_of_mem_setIfInBounds hu).imp (hhas u) Or.inl
          · split at h
            · cases h
            · split at h
              · refine Or.inr ⟨hsome, _, (Stored.object.inj (Except.ok.inj h)).symm, fun u hu => ?_⟩
                rcases Array.mem_push.1 hu with hu | hu
                · exact (mem_resize hu).imp (hhas u) Or.inr
                · exact Or.inr (Or.inl hu)
              · exact Or.inl (hadd _ rfl (Except.ok.inj h))

/-- The elements that a definition leaves were there before, or are the defined value or
undefined. -/
theorem defineElement?_eq_ok {o : Object κ} {key : Text} {d : Descriptor} {elements : Array Value}
    (h : o.defineElement? key d = some (.ok elements)) :
    o.elements.isSome ∧ ∀ u ∈ elements, o.HasElement u ∨ d.value = some u ∨ u = .undefined := by
  unfold defineElement? at h
  split at h
  · cases h
  rename_i old he
  have hhas : ∀ u ∈ old, o.HasElement u := fun u hu => ⟨old, he, hu⟩
  refine ⟨by simp [he], fun u hu => ?_⟩
  split at h
  · cases h
  split at h
  · split at h
    · cases h
      exact Or.inl (hhas u hu)
    · obtain ⟨n, -, rfl⟩ := Except.map_eq_ok (Option.some.inj h)
      exact (mem_resize hu).imp (hhas u) Or.inr
  · split at h
    · split at h
      · cases h
        cases hv : d.value with
        | none =>
          rw [hv] at hu
          exact Or.inl (hhas u hu)
        | some v =>
          rw [hv] at hu
          refine (Array.mem_or_eq_of_mem_setIfInBounds hu).imp (hhas u) fun huv => Or.inl ?_
          rw [huv]
      · cases h
    · cases h

/-- Defining stores the completed property, or, where no property is stored, changes the dense
elements. -/
theorem define_eq_ok {o o' : Object κ} {key : Text} {d : Descriptor}
    (h : o.define key d = .ok o') :
    o' = o.putProperty key (d.complete (o.own? key)) ∨
      (o.elements.isSome ∧ ∃ elements, o' = { o with elements := some elements } ∧
        ∀ u ∈ elements, o.HasElement u ∨ d.value = some u ∨ u = .undefined) := by
  unfold define at h
  split at h
  · rename_i elements he
    obtain ⟨es, rfl, rfl⟩ := Except.map_eq_ok h
    obtain ⟨hsome, hes⟩ := defineElement?_eq_ok he
    exact Or.inr ⟨hsome, es, rfl, hes⟩
  · exact Or.inl (Except.ok.inj h).symm

theorem delete_eq_property {o o' : Object κ} {key : Text} (h : o.delete key = .property o') :
    o' = { o with properties := o.properties.erase key } := by
  unfold delete at h
  split at h
  · split at h
    · exact (Deleted.property.inj h).symm
    · cases h
  · split at h
    · cases h
    · split at h
      · cases h
      · split at h <;> cases h

/-- Where no property is stored, deleting changes at most the dense elements. -/
theorem delete_eq_element {o o' : Object κ} {key : Text} (h : o.delete key = .element o') :
    o' = o ∨ (o.elements.isSome ∧ ∃ elements, o' = { o with elements := some elements } ∧
      ∀ u ∈ elements, o.HasElement u ∨ u = .undefined) := by
  unfold delete at h
  split at h
  · split at h <;> cases h
  · split at h
    · exact Or.inl (Deleted.element.inj h).symm
    · rename_i elements he
      split at h
      · cases h
      · split at h
        · exact Or.inl (Deleted.element.inj h).symm
        · refine Or.inr ⟨by simp [he], _, (Deleted.element.inj h).symm, fun u hu => ?_⟩
          exact (Array.mem_or_eq_of_mem_setIfInBounds hu).imp_left fun hu => ⟨elements, he, hu⟩

end Object

namespace Realm

/-! ## Frames -/

@[simp] theorem heap_modifyScope (r : Realm κ) (s : ScopeId) (f : Scope → Scope) :
    (r.modifyScope s f).heap = r.heap := rfl

@[simp] theorem heap_replaceObject (r : Realm κ) (o : ObjectId) (data : Object κ) :
    (r.replaceObject o data).heap = r.heap.replace o data := rfl

theorem index_lt_of_scope_ne {r : Realm κ} {t : ScopeId} (h : r.scope t ≠ default) :
    t.index < r.scopes.size := by
  refine Nat.lt_of_not_le fun hle => h ?_
  rw [scope, Array.getElem?_eq_none hle]
  rfl

theorem index_lt_of_linked {r : Realm κ} {t : ScopeId} {o : ObjectId}
    (h : (r.scope t).linked = some o) : t.index < r.scopes.size := by
  refine index_lt_of_scope_ne fun hdefault => ?_
  rw [hdefault] at h
  cases h

theorem scope_modifyScope_self {r : Realm κ} {s : ScopeId} (h : s.index < r.scopes.size)
    (f : Scope → Scope) : (r.modifyScope s f).scope s = f (r.scope s) := by
  simp only [scope, modifyScope, Array.getElem?_modify, if_true, Array.getElem?_eq_getElem h]
  rfl

theorem scope_modifyScope_ne {r : Realm κ} {s t : ScopeId} (h : t ≠ s) (f : Scope → Scope) :
    (r.modifyScope s f).scope t = r.scope t := by
  have hi : ¬s.index = t.index := fun e => h (by cases s; cases t; simp_all)
  simp [scope, modifyScope, Array.getElem?_modify, hi]

/-- Changing a scope leaves the scope that one looks at alone, or is the change of that very one. -/
theorem scope_modifyScope_cases (r : Realm κ) (s t : ScopeId) (f : Scope → Scope) :
    (r.modifyScope s f).scope t = r.scope t ∨
      t = s ∧ (r.modifyScope s f).scope t = f (r.scope t) := by
  by_cases ht : t = s
  · subst ht
    by_cases hlt : t.index < r.scopes.size
    · exact Or.inr ⟨rfl, scope_modifyScope_self hlt f⟩
    · left
      simp [scope, modifyScope, hlt]
  · exact Or.inl (scope_modifyScope_ne ht f)

/-- What the change of a scope leaves alone there is left alone in every scope. -/
theorem scope_modifyScope_kept {α : Type} {r : Realm κ} {s : ScopeId} {g : Scope → α}
    {f : Scope → Scope} (hf : g (f (r.scope s)) = g (r.scope s)) (t : ScopeId) :
    g ((r.modifyScope s f).scope t) = g (r.scope t) := by
  rcases scope_modifyScope_cases r s t f with h | ⟨rfl, h⟩
  · rw [h]
  · rw [h, hf]

/-- What changes of scopes leave alone is left alone in every scope. -/
theorem scope_modifyScope_frame {α : Type} {g : Scope → α} {f : Scope → Scope}
    (hf : ∀ scope, g (f scope) = g scope) (r : Realm κ) (s t : ScopeId) :
    g ((r.modifyScope s f).scope t) = g (r.scope t) := scope_modifyScope_kept (hf _) t

theorem modifyScope_modifyScope (r : Realm κ) (s : ScopeId) (f g : Scope → Scope) :
    (r.modifyScope s f).modifyScope s g = r.modifyScope s fun scope => g (f scope) := by
  have hscopes : (r.scopes.modify s.index f).modify s.index g =
      r.scopes.modify s.index fun scope => g (f scope) := by
    refine Array.ext (by simp) fun i hi _ => ?_
    simp only [Array.getElem_modify]
    split <;> rfl
  simp only [modifyScope, hscopes]

@[simp] theorem heap_sync (r : Realm κ) (data : Object κ) (key : Text) :
    (r.sync data key).heap = r.heap := by
  unfold sync
  split <;> rfl

@[simp] theorem heap_unlink (r : Realm κ) (data : Object κ) (key : Text) :
    (r.unlink data key).heap = r.heap := by
  unfold unlink
  split <;> rfl

/-! ## Properties -/

theorem object_eq_ok {r : Realm κ} {o : ObjectId} {data : Object κ} :
    r.object o = .ok data ↔ r.heap.get? o = some data := by
  unfold object
  split
  · rename_i data' h
    simp [h]
  · rename_i h
    simp [h]

theorem assign_eq_stored {r r' : Realm κ} {o : ObjectId} {key : Text} {v : Value}
    (h : r.assign o key v = .ok (.stored r')) :
    ∃ data data', r.heap.get? o = some data ∧ data.assign key v = .ok (.object data') ∧
      r' = (r.replaceObject o data').sync data' key := by
  obtain ⟨data, hd, h⟩ := Except.bind_eq_ok h
  obtain ⟨stored, hs, h⟩ := Except.bind_eq_ok h
  cases stored with
  | object data' =>
    exact ⟨data, data', object_eq_ok.1 hd, hs, (Assignment.stored.inj (Except.ok.inj h)).symm⟩
  | ignored => cases h
  | setter f => cases h

theorem define_eq_ok {r r' : Realm κ} {o : ObjectId} {key : Text} {d : Descriptor}
    (h : r.define o key d = .ok r') :
    ∃ data data', r.heap.get? o = some data ∧ data.define key d = .ok data' ∧
      r' = (r.replaceObject o data').sync data' key := by
  obtain ⟨data, hd, h⟩ := Except.bind_eq_ok h
  obtain ⟨data', hd', h⟩ := Except.bind_eq_ok h
  exact ⟨data, data', object_eq_ok.1 hd, hd', (Except.ok.inj h).symm⟩

/-- Deleting is refused, removes a stored property together with its variable, or changes the dense
elements only. -/
theorem delete_eq_ok {r r' : Realm κ} {o : ObjectId} {key : Text} {b : Bool}
    (h : r.delete o key = .ok (b, r')) :
    r' = r ∨ ∃ data data', r.heap.get? o = some data ∧
      ((data.delete key = .property data' ∧ r' = (r.replaceObject o data').unlink data' key) ∨
        (data.delete key = .element data' ∧ r' = r.replaceObject o data')) := by
  obtain ⟨data, hd, h⟩ := Except.bind_eq_ok h
  have hd := object_eq_ok.1 hd
  split at h
  · exact Or.inl (Prod.mk.inj (Except.ok.inj h)).2.symm
  · rename_i data' hp
    exact Or.inr ⟨data, data', hd, Or.inl ⟨hp, (Prod.mk.inj (Except.ok.inj h)).2.symm⟩⟩
  · rename_i data' he
    exact Or.inr ⟨data, data', hd, Or.inr ⟨he, (Prod.mk.inj (Except.ok.inj h)).2.symm⟩⟩

theorem preventExtensions_eq_ok {r r' : Realm κ} {o : ObjectId}
    (h : r.preventExtensions o = .ok r') :
    ∃ data, r.heap.get? o = some data ∧
      r' = r.replaceObject o { data with extensible := false } := by
  obtain ⟨data, hd, h⟩ := Except.bind_eq_ok h
  exact ⟨data, object_eq_ok.1 hd, (Except.ok.inj h).symm⟩

theorem setPrototype_eq_ok {r r' : Realm κ} {o : ObjectId} {proto : Option ObjectId} {b : Bool}
    (h : r.setPrototype o proto = .ok (b, r')) :
    r' = r ∨ ∃ data, r.heap.get? o = some data ∧
      r.onChain o (r.options.maxPrototypeDepth + 1) proto = .ok false ∧
      r' = r.replaceObject o { data with prototype := proto } := by
  obtain ⟨data, hd, h⟩ := Except.bind_eq_ok h
  split at h
  · exact Or.inl (Prod.mk.inj (Except.ok.inj h)).2.symm
  · split at h
    · exact Or.inl (Prod.mk.inj (Except.ok.inj h)).2.symm
    · obtain ⟨onChain, hc, h⟩ := Except.bind_eq_ok h
      cases onChain with
      | true => exact Or.inl (Prod.mk.inj (Except.ok.inj h)).2.symm
      | false => exact Or.inr ⟨data, object_eq_ok.1 hd, hc, (Prod.mk.inj (Except.ok.inj h)).2.symm⟩

theorem hasProperty_of_own? {r : Realm κ} {o : ObjectId} {key : Text} {data : Object κ}
    {p : Property} (hd : r.heap.get? o = some data) (hp : data.own? key = some p) :
    r.hasProperty o key = .ok true := by
  simp only [hasProperty_eq, property?, findProperty, object_eq_ok.2 hd]
  simp [bind, Except.bind, hp, pure, Except.pure, Except.map]

/-! ## Names -/

/-- What storing a value in a name of a scope comes to: the name is lexical, or a variable that no
property hides, or a property of the object that stands in for the scope. -/
inductive StoresName (r : Realm κ) (name : String) (v : Value) (s : ScopeId) : Realm κ → Prop where
  | lexical {b b' : Binding} (hb : (r.scope s).lexical.get? name = some b)
      (ha : b.assign name v = .ok b') :
      StoresName r name v s (r.modifyScope s fun scope => scope.putLexical name b')
  | var {b b' : Binding} (hb : (r.scope s).vars.get? name = some b)
      (ha : b.assign name v = .ok b')
      (hl : ∀ o, (r.scope s).linked = some o → r.hasProperty o (.ofString name) = .ok false) :
      StoresName r name v s (r.modifyScope s fun scope => scope.putVar name b')
  | property {o : ObjectId} {r' : Realm κ} (hl : (r.scope s).linked = some o)
      (ha : r.assign o (.ofString name) v = .ok (.stored r')) : StoresName r name v s r'

/-- Where an object stands in for a scope and has the name as a property, the property is assigned
to, and else what comes behind the object. -/
theorem assignLinked_eq_stored {r r' : Realm κ} {name : String} {v : Value}
    {linked : Option ObjectId} {behind : Except Fault (Assignment κ)}
    (h : (match linked with
      | none => behind
      | some o => do
        if ← r.hasProperty o (.ofString name) then r.assign o (.ofString name) v else behind) =
      .ok (.stored r')) :
    (∃ o, linked = some o ∧ r.assign o (.ofString name) v = .ok (.stored r')) ∨
      (behind = .ok (.stored r') ∧
        ∀ o, linked = some o → r.hasProperty o (.ofString name) = .ok false) := by
  cases linked with
  | none => exact Or.inr ⟨h, nofun⟩
  | some o =>
    obtain ⟨found, hf, h⟩ := Except.bind_eq_ok h
    cases found with
    | true => exact Or.inl ⟨o, rfl, h⟩
    | false =>
      refine Or.inr ⟨h, fun p hp => ?_⟩
      rw [← Option.some.inj hp, hf]

theorem assignIn_eq_stored {r r' : Realm κ} {name : String} {v : Value} {chain : List ScopeId}
    (h : r.assignIn name v chain = .ok (.stored r')) : ∃ s ∈ chain, r.StoresName name v s r' := by
  induction chain with
  | nil => cases h
  | cons s outer ih =>
    unfold assignIn at h
    dsimp only at h
    split at h
    · rename_i b hb
      obtain ⟨b', ha, hr⟩ := Except.map_eq_ok h
      cases hr
      exact ⟨s, List.mem_cons_self, .lexical hb ha⟩
    · rcases assignLinked_eq_stored h with ⟨o, hl, ha⟩ | ⟨hv, hl⟩
      · exact ⟨s, List.mem_cons_self, .property hl ha⟩
      · split at hv
        · rename_i b hb
          obtain ⟨b', ha, hr⟩ := Except.map_eq_ok hv
          cases hr
          exact ⟨s, List.mem_cons_self, .var hb ha hl⟩
        · obtain ⟨t, ht, hh⟩ := ih hv
          exact ⟨t, List.mem_cons_of_mem _ ht, hh⟩

end Realm

end Ecma
