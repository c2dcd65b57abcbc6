import Ecma.Proofs.Resolution

/-!
# A name that is written is read back

Where the place of a name is the lexical name or the variable itself, or an own property that may be
written, assigning to the name changes that place alone: the name keeps its place, what was written
is read there, and nothing else is different (`Realm.Written`). Only the variable that the property
stands in for changes along with it.
-/

namespace Ecma

variable {κ σ : Type}

theorem OrderedMap.contains_insert_self {α β : Type} [DecidableEq α] (m : OrderedMap α β) (k : α)
    (v : β) : (m.insert k v).contains k = true := by
  rw [contains, get?_insert, if_pos rfl]
  rfl

theorem Object.own?_putProperty (o : Object κ) (key k : Text) (p : Property) :
    (o.putProperty key p).own? k = if k = key then some p else o.own? k := by
  have helement : (o.putProperty key p).elementProperty? k = o.elementProperty? k := rfl
  rw [own?, own?, helement, putProperty, OrderedMap.get?_insert]
  split
  · rfl
  · rfl

namespace Realm

variable {r r' : Realm κ} {o : ObjectId} {key : Text} {s t : ScopeId} {name : String} {v : Value}

/-! ## Names keep their places -/

/-- Two realms in which a name is found at the same places. -/
structure SamePlaces (r r' : Realm κ) (name : String) : Prop where
  outer : ∀ t, (r'.scope t).outer = (r.scope t).outer
  linked : ∀ t, (r'.scope t).linked = (r.scope t).linked
  lexical : ∀ t, (r'.scope t).lexical.contains name = (r.scope t).lexical.contains name
  vars : ∀ t, (r'.scope t).vars.contains name = (r.scope t).vars.contains name
  hasProperty : ∀ o, r'.hasProperty o (.ofString name) = r.hasProperty o (.ofString name)

/-- What is seen of the property that is found depends on the prototypes and on what is seen of own
properties, as long as it is seen whether there is one. -/
theorem findProperty_congr {α : Type} {f : Option Property → α}
    (hf : ∀ found, f found = f none → found = none) (ho : r'.options = r.options)
    (hcells : ∀ p, (r'.heap.get? p).map (fun data => (data.prototype, f (data.own? key))) =
      (r.heap.get? p).map fun data => (data.prototype, f (data.own? key))) (steps : Nat)
    (o : ObjectId) :
    (r'.findProperty key steps o).map f = (r.findProperty key steps o).map f := by
  induction steps generalizing o with
  | zero => rw [findProperty, findProperty, ho]
  | succ steps ih =>
    have hcell := hcells o
    rw [findProperty, findProperty, object, object]
    cases hd' : r'.heap.get? o with
    | none =>
      rw [hd'] at hcell
      rw [Option.map_eq_none_iff.1 hcell.symm]
      rfl
    | some data' =>
      rw [hd'] at hcell
      obtain ⟨data, hd, hsame⟩ := Option.map_eq_some_iff.1 hcell.symm
      obtain ⟨hproto, hseen⟩ := Prod.mk.inj hsame
      rw [hd]
      simp only [bind, Except.bind, ← hproto]
      cases hp : data.own? key with
      | some p =>
        rw [hp] at hseen
        cases hp' : data'.own? key with
        | none =>
          rw [hp'] at hseen
          cases hf _ hseen
        | some p' =>
          rw [hp'] at hseen
          exact congrArg Except.ok hseen.symm
      | none =>
        rw [hp] at hseen
        rw [hf _ hseen.symm]
        cases data.prototype with
        | none => rfl
        | some parent => exact ih parent

/-- Whether a property is found depends on the prototypes and on which objects have the key. -/
theorem hasProperty_congr (ho : r'.options = r.options)
    (hcells : ∀ p, (r'.heap.get? p).map (fun data => (data.prototype, data.hasOwn key)) =
      (r.heap.get? p).map fun data => (data.prototype, data.hasOwn key)) (o : ObjectId) :
    r'.hasProperty o key = r.hasProperty o key := by
  have hsome : ∀ found : Option Property, found.isSome = (none : Option Property).isSome →
      found = none := fun found h => Option.not_isSome_iff_eq_none.1 (ne_true_of_eq_false h)
  simp only [Object.hasOwn_eq] at hcells
  rw [hasProperty_eq, hasProperty_eq, property?, property?, ho]
  exact findProperty_congr hsome ho hcells _ o

namespace SamePlaces

theorem refl (r : Realm κ) (name : String) : SamePlaces r r name :=
  ⟨fun _ => rfl, fun _ => rfl, fun _ => rfl, fun _ => rfl, fun _ => rfl⟩

theorem modifyScope (h : SamePlaces r r' name) {f : Scope → Scope}
    (houter : (f (r'.scope t)).outer = (r'.scope t).outer)
    (hlinked : (f (r'.scope t)).linked = (r'.scope t).linked)
    (hlexical : (f (r'.scope t)).lexical.contains name = (r'.scope t).lexical.contains name)
    (hvars : (f (r'.scope t)).vars.contains name = (r'.scope t).vars.contains name) :
    SamePlaces r (r'.modifyScope t f) name := by
  refine ⟨fun u => ?_, fun u => ?_, fun u => ?_, fun u => ?_, fun o => ?_⟩
  · rw [scope_modifyScope_kept (g := Scope.outer) houter, h.outer]
  · rw [scope_modifyScope_kept (g := Scope.linked) hlinked, h.linked]
  · rw [scope_modifyScope_kept (g := (·.lexical.contains name)) hlexical, h.lexical]
  · rw [scope_modifyScope_kept (g := (·.vars.contains name)) hvars, h.vars]
  · have hkept : (r'.modifyScope t f).hasProperty o (.ofString name) =
        r'.hasProperty o (.ofString name) := by
      refine hasProperty_congr ?_ (fun p => ?_) o
      · rfl
      · rfl
    rw [hkept, h.hasProperty]

theorem place_eq (h : SamePlaces r r' name) (s : ScopeId) :
    r'.place s name = r.place s name := by
  have hchain : r'.chain s = r.chain s := by rw [chain, chain, h.outer]
  rw [place, place, hchain]
  induction r.chain s with
  | nil => rfl
  | cons t outer ih =>
    rw [placeIn, placeIn]
    dsimp only
    rw [h.lexical, h.vars, h.linked, ih]
    split
    · rfl
    · split
      · rfl
      · rw [h.hasProperty]

end SamePlaces

/-! ## What writing changes -/

/-- The variables that the property of a name stands in for. -/
def StandsFor (r : Realm κ) : Place → ScopeId → Prop
  | .property o, t => ∃ data, r.heap.get? o = some data ∧ data.scope = some t
  | _, _ => False

/-- The second realm differs from the first one in what a name is at a place: all other bindings and
properties are the same, but for the variable that the property stands in for. -/
structure WritesOnly (r r' : Realm κ) (name : String) (p : Place) : Prop where
  lexical : ∀ t x, p ≠ .lexical t ∨ x ≠ name →
    (r'.scope t).lexical.get? x = (r.scope t).lexical.get? x
  vars : ∀ t x, p ≠ .var t ∧ ¬r.StandsFor p t ∨ x ≠ name →
    (r'.scope t).vars.get? x = (r.scope t).vars.get? x
  property : ∀ o key, p ≠ .property o ∨ key ≠ .ofString name →
    r'.ownProperty? o key = r.ownProperty? o key

/-- The second realm is the first one after a value was written to a name at a place. -/
structure Written (r r' : Realm κ) (name : String) (v : Value) (p : Place) : Prop where
  samePlaces : SamePlaces r r' name
  reads : r'.readAt name p = .ok (.value v)
  only : WritesOnly r r' name p

theorem Written.resolve_eq {p : Place} (h : Written r r' name v p) (hp : r.place s name = .ok p) :
    r'.resolve s name = .ok (.value v) := by
  rw [Realm.resolve_eq, h.samePlaces.place_eq, hp]
  exact h.reads

namespace WritesOnly

variable {p : Place}

theorem refl (r : Realm κ) (name : String) (p : Place) : WritesOnly r r name p :=
  ⟨fun _ _ _ => rfl, fun _ _ _ => rfl, fun _ _ _ => rfl⟩

theorem modifyScope (h : WritesOnly r r' name p) {f : Scope → Scope}
    (hlexical : ∀ x, p ≠ .lexical t ∨ x ≠ name →
      (f (r'.scope t)).lexical.get? x = (r'.scope t).lexical.get? x)
    (hvars : ∀ x, p ≠ .var t ∧ ¬r.StandsFor p t ∨ x ≠ name →
      (f (r'.scope t)).vars.get? x = (r'.scope t).vars.get? x) :
    WritesOnly r (r'.modifyScope t f) name p := by
  refine ⟨fun u x hx => ?_, fun u x hx => ?_, h.property⟩
  · by_cases hu : u = t
    · subst hu
      rw [scope_modifyScope_kept (g := (·.lexical.get? x)) (hlexical x hx), h.lexical u x hx]
    · rw [scope_modifyScope_ne hu, h.lexical u x hx]
  · by_cases hu : u = t
    · subst hu
      rw [scope_modifyScope_kept (g := (·.vars.get? x)) (hvars x hx), h.vars u x hx]
    · rw [scope_modifyScope_ne hu, h.vars u x hx]

end WritesOnly

theorem written_lexical {b b' : Binding} (hb : (r.scope t).lexical.get? name = some b)
    (ha : b.assign name v = .ok b') :
    Written r (r.modifyScope t fun scope => scope.putLexical name b') name v (.lexical t) := by
  have hlt : t.index < r.scopes.size := by
    refine index_lt_of_scope_ne fun hdefault => ?_
    rw [hdefault] at hb
    cases hb
  refine ⟨(SamePlaces.refl r name).modifyScope rfl rfl ?_ rfl, ?_,
    (WritesOnly.refl r name _).modifyScope ?_ fun _ _ => rfl⟩
  · have hbefore : (r.scope t).lexical.contains name = true := by rw [OrderedMap.contains, hb]; rfl
    rw [hbefore]
    exact OrderedMap.contains_insert_self _ _ _
  · rw [readAt, scope_modifyScope_self hlt, Scope.putLexical, OrderedMap.get?_insert, if_pos rfl]
    dsimp only
    rw [if_pos (Binding.outlives_of_assign ha).initialized, Binding.value_of_assign ha]
  · intro x hx
    rw [Scope.putLexical, OrderedMap.get?_insert, if_neg]
    exact hx.resolve_left fun h => h rfl

theorem written_var {b b' : Binding} (hb : (r.scope t).vars.get? name = some b)
    (ha : b.assign name v = .ok b') :
    Written r (r.modifyScope t fun scope => scope.putVar name b') name v (.var t) := by
  have hlt : t.index < r.scopes.size := by
    refine index_lt_of_scope_ne fun hdefault => ?_
    rw [hdefault] at hb
    cases hb
  refine ⟨(SamePlaces.refl r name).modifyScope rfl rfl rfl ?_, ?_,
    (WritesOnly.refl r name _).modifyScope (fun _ _ => rfl) ?_⟩
  · have hbefore : (r.scope t).vars.contains name = true := by rw [OrderedMap.contains, hb]; rfl
    rw [hbefore]
    exact OrderedMap.contains_insert_self _ _ _
  · rw [readAt, scope_modifyScope_self hlt, Scope.putVar, OrderedMap.get?_insert, if_pos rfl]
    dsimp only
    rw [Binding.value_of_assign ha]
  · intro x hx
    rw [Scope.putVar, OrderedMap.get?_insert, if_neg]
    exact hx.resolve_left fun h => h.1 rfl

theorem assign_of_writable {data : Object κ} {u : Value} {e c : Bool}
    (hd : r.heap.get? o = some data) (hp : data.properties.get? key = some (.data u true e c))
    (v : Value) :
    r.assign o key v = .ok (.stored
      ((r.replaceObject o (data.putProperty key (.data v true e c))).sync
        (data.putProperty key (.data v true e c)) key)) := by
  have hassign : data.assign key v = .ok (.object (data.putProperty key (.data v true e c))) := by
    rw [Object.assign, hp]
    rfl
  exact assign_of_object hd hassign

/-- A stored value reaches the variable that the property stands in for. -/
theorem sync_putProperty (r : Realm κ) (data : Object κ) (name : String) (v : Value)
    (w e c : Bool) :
    r.sync (data.putProperty (.ofString name) (.data v w e c)) (.ofString name) =
      match data.scope with
      | some t => r.modifyScope t fun scope => scope.setVar name v
      | none => r := by
  have hget : (data.putProperty (.ofString name) (.data v w e c)).properties.get? (.ofString name) =
      some (.data v w e c) := by
    rw [Object.putProperty, OrderedMap.get?_insert, if_pos rfl]
  have hscope : (data.putProperty (.ofString name) (.data v w e c)).scope = data.scope := rfl
  rw [sync, hget, hscope, Text.toString?_ofString]
  cases data.scope with
  | none => rfl
  | some t => rfl

theorem lookup_of_own? {data : Object κ} {w e c : Bool} (hd : r.heap.get? o = some data)
    (hp : data.own? key = some (.data v w e c)) (receiver : Value) :
    r.lookup o key receiver = .ok (.value v) := by
  rw [lookup, property?, findProperty, object_eq_ok.2 hd]
  simp only [bind, Except.bind, hp]
  rfl

/-- A property that gets another value is found as before. -/
theorem samePlaces_replaceObject {data : Object κ} {p q : Property} (hd : r.heap.get? o = some data)
    (hq : data.own? (.ofString name) = some q) :
    SamePlaces r (r.replaceObject o (data.putProperty (.ofString name) p)) name := by
  refine ⟨fun _ => rfl, fun _ => rfl, fun _ => rfl, fun _ => rfl, fun t => ?_⟩
  refine hasProperty_congr ?_ (fun u => ?_) t
  · rfl
  · rw [heap_replaceObject, Heap.get?_replace]
    split
    · rename_i hu
      subst hu
      simp only [hd, Option.map_some, Object.hasOwn_eq, Object.own?_putProperty, if_true, hq]
      rfl
    · rfl

theorem writesOnly_replaceObject {data : Object κ} {p : Property} (hd : r.heap.get? o = some data) :
    WritesOnly r (r.replaceObject o (data.putProperty (.ofString name) p)) name (.property o) := by
  refine ⟨fun _ _ _ => rfl, fun _ _ _ => rfl, fun u key hu => ?_⟩
  rw [ownProperty?, ownProperty?, object, object, heap_replaceObject, Heap.get?_replace]
  by_cases huo : u = o
  · subst huo
    have hkey : key ≠ .ofString name := hu.resolve_left fun h => h rfl
    simp only [if_true, hd, Option.map_some, Except.map, Object.own?_putProperty, if_neg hkey]
  · rw [if_neg huo]

/-- A property that may be written, and the variable that it stands in for. -/
theorem written_property {data : Object κ} {u : Value} {e c : Bool}
    (hd : r.heap.get? o = some data)
    (hp : data.properties.get? (.ofString name) = some (.data u true e c)) (v : Value) :
    ∃ r', r.assign o (.ofString name) v = .ok (.stored r') ∧ Written r r' name v (.property o) := by
  refine ⟨_, assign_of_writable hd hp v, ?_⟩
  have hown : data.own? (.ofString name) = some (.data u true e c) := by
    rw [Object.own?, hp]
    rfl
  have hsame := samePlaces_replaceObject (p := .data v true e c) hd hown
  have honly : WritesOnly r (r.replaceObject o (data.putProperty (.ofString name)
      (.data v true e c))) name (.property o) := writesOnly_replaceObject hd
  have hreads : ∀ r' : Realm κ,
      r'.heap = r.heap.replace o (data.putProperty (.ofString name) (.data v true e c)) →
      r'.readAt name (.property o) = .ok (.value v) := by
    intro r' hheap
    have hget : r'.heap.get? o = some (data.putProperty (.ofString name) (.data v true e c)) := by
      rw [hheap, Heap.get?_replace, if_pos rfl, hd]
      rfl
    refine lookup_of_own? (w := true) (e := e) (c := c) hget ?_ _
    rw [Object.own?_putProperty, if_pos rfl]
  rw [sync_putProperty]
  cases hscope : data.scope with
  | none => exact ⟨hsame, hreads _ rfl, honly⟩
  | some t =>
    refine ⟨hsame.modifyScope rfl rfl rfl ?_, hreads _ rfl,
      honly.modifyScope (fun _ _ => rfl) fun x hx => ?_⟩
    · rw [Scope.setVar, OrderedMap.contains, OrderedMap.get?_modify, if_pos rfl, Option.isSome_map]
      rfl
    · have hx' : x ≠ name := hx.resolve_left fun h => h.2 ⟨data, hd, hscope⟩
      rw [Scope.setVar, OrderedMap.get?_modify, if_neg hx']

/-! ## Names that objects hold plainly -/

/-- The objects that stand in for the scopes seen from a scope have no dense elements, and no
accessors under a name, not even inherited ones. -/
structure PlainLinks (r : Realm κ) (s : ScopeId) (name : String) : Prop where
  noAccessor : ∀ t ∈ r.chain s, ∀ o, (r.scope t).linked = some o →
    r.heap.NoAccessor (.ofString name) o
  elements : ∀ t ∈ r.chain s, ∀ o data, (r.scope t).linked = some o → r.heap.get? o = some data →
    data.elements = none

/-- Why a name seen from a scope cannot be used at all. -/
def Unresolved (r : Realm κ) (s : ScopeId) (name : String) (f : Fault) : Prop :=
  f = .uninitialized name ∨ r.Lost name (r.chain s) f

/-- A name is held at a place itself: it is not a property that is inherited, computed or fixed. -/
def Direct (r : Realm κ) (name : String) : Place → Prop
  | .lexical _ | .var _ => True
  | .property o => ∃ u e c, r.ownProperty? o (.ofString name) = .ok (some (.data u true e c))

theorem hasProperty_fault {f : Fault} (h : r.hasProperty o key = .error f) :
    (∃ p, f = .collected p) ∨ f = .chainTooLong r.options.maxPrototypeDepth := by
  have hfind : ∀ steps o, r.findProperty key steps o = .error f →
      (∃ p, f = .collected p) ∨ f = .chainTooLong r.options.maxPrototypeDepth := by
    intro steps
    induction steps with
    | zero =>
      intro o h
      exact Or.inr (Except.error.inj h).symm
    | succ steps ih =>
      intro o h
      rw [findProperty, object] at h
      cases hd : r.heap.get? o with
      | none =>
        rw [hd] at h
        exact Or.inl ⟨o, (Except.error.inj h).symm⟩
      | some data =>
        rw [hd] at h
        simp only [bind, Except.bind] at h
        split at h
        · cases h
        · split at h
          · exact ih _ h
          · cases h
  rw [hasProperty_eq] at h
  cases hp : r.property? o key with
  | error g =>
    rw [hp] at h
    obtain rfl := Except.error.inj h
    exact hfind _ o hp
  | ok found =>
    rw [hp] at h
    cases h

theorem not_unresolved_constAssignment : ¬r.Unresolved s name (.constAssignment name) := by
  rintro (h | h | ⟨t, -, o, -, h⟩)
  · cases h
  · cases h
  · rcases hasProperty_fault h with ⟨p, hp⟩ | hp
    · cases hp
    · cases hp

/-- Reading and writing a name fail for the same reason, or the name has a value and writing is
refused, without effect, or done. -/
theorem resolve_assignName_cases (hready : ∀ t, (r.scope t).VarsReady) (hp : r.PlainLinks s name)
    (v : Value) :
    (∃ f, r.Unresolved s name f ∧ r.resolve s name = .error f ∧ r.assignName s name v = .error f) ∨
      ∃ u, r.resolve s name = .ok (.value u) ∧
        (r.assignName s name v = .error (.constAssignment name) ∨
          r.assignName s name v = .ok .ignored ∨
          ∃ r', r.assignName s name v = .ok (.stored r')) := by
  rw [resolve_eq, assignName_eq, place]
  rcases r.placeIn_cases name (r.chain s) with ⟨f, hf, hlost⟩ | ⟨p, hplace, hholds⟩
  · rw [hf]
    exact Or.inl ⟨f, Or.inr hlost, rfl, rfl⟩
  rw [hplace]
  simp only [bind, Except.bind]
  cases p with
  | lexical t =>
    obtain ⟨b, hb⟩ := hholds
    simp only [readAt, writeAt, hb, Binding.assign]
    by_cases hi : b.initialized = true
    · right
      refine ⟨b.value, if_pos hi, ?_⟩
      by_cases hm : b.isMutable = true
      · right
        right
        refine ⟨r.modifyScope t fun scope => scope.putLexical name (b.withValue v), ?_⟩
        simp [hi, hm, Except.map]
      · exact Or.inl (by simp [hi, hm, Except.map])
    · left
      refine ⟨.uninitialized name, Or.inl rfl, if_neg hi, ?_⟩
      simp [hi, Except.map]
  | var t =>
    obtain ⟨b, hb⟩ := hholds
    obtain ⟨hi, hm⟩ := hready t name b hb
    simp only [readAt, writeAt, hb, Binding.assign, hi, hm]
    exact Or.inr ⟨b.value, rfl, Or.inr (Or.inr ⟨_, rfl⟩)⟩
  | property o =>
    obtain ⟨⟨t, ht, hlink⟩, hhas⟩ := hholds
    have hno := hp.noAccessor t ht o hlink
    obtain ⟨u, hu⟩ := lookup_of_hasProperty hhas hno (.object o)
    obtain ⟨data, hd⟩ := get?_of_hasProperty hhas
    have hassign := assign_of_noAccessor hd (hp.elements t ht o data hlink hd) hno v
    exact Or.inr ⟨u, hu, Or.inr hassign⟩

theorem written_of_assignName {p : Place} {a : Assignment κ} (hp : r.PlainLinks s name)
    (hplace : r.place s name = .ok p) (hdirect : r.Direct name p)
    (ha : r.assignName s name v = .ok a) : ∃ r', a = .stored r' ∧ Written r r' name v p := by
  have hholds : r.Holds name (r.chain s) p := by
    rcases r.placeIn_cases name (r.chain s) with ⟨f, hf, -⟩ | ⟨q, hq, hholds⟩
    · rw [place, hf] at hplace
      cases hplace
    · rw [place, hq] at hplace
      rwa [← Except.ok.inj hplace]
  rw [assignName_eq, hplace] at ha
  change r.writeAt name v p = .ok a at ha
  cases p with
  | lexical t =>
    obtain ⟨b, hb⟩ := hholds
    rw [writeAt, hb] at ha
    obtain ⟨b', hb', rfl⟩ := Except.map_eq_ok ha
    exact ⟨_, rfl, written_lexical hb hb'⟩
  | var t =>
    obtain ⟨b, hb⟩ := hholds
    rw [writeAt, hb] at ha
    obtain ⟨b', hb', rfl⟩ := Except.map_eq_ok ha
    exact ⟨_, rfl, written_var hb hb'⟩
  | property o =>
    obtain ⟨⟨t, ht, hlink⟩, -⟩ := hholds
    obtain ⟨u, e, c, hown⟩ := hdirect
    obtain ⟨data, hd, hown⟩ := Except.map_eq_ok hown
    rw [object_eq_ok] at hd
    have hstored : data.properties.get? (.ofString name) = some (.data u true e c) := by
      have he := hp.elements t ht o data hlink hd
      simpa [Object.own?, Object.elementProperty?, he] using hown
    obtain ⟨r', hr', hwritten⟩ := written_property hd hstored v
    rw [writeAt, hr'] at ha
    exact ⟨r', (Except.ok.inj ha).symm, hwritten⟩

theorem noAccessor_of_cells
    (h : (r.heap.cells.all fun cell =>
      cell.all fun data => (data.own? key).all fun p => !p.isAccessor) = true) :
    r.heap.NoAccessor key o := by
  intro p data q _ hd hq
  rw [Heap.get?_eq_some_iff] at hd
  have hcell := Array.all_eq_true'.1 h _ (Array.mem_of_getElem? hd)
  simpa [hq] using hcell

end Realm

/-! ## Reading and writing names -/

namespace Engine

variable {e : Engine κ σ} {w : World κ σ} {s : ScopeId} {name : String} {v : Value}

theorem getBinding_of_resolve {u : Value} (h : w.realm.resolve s name = .ok (.value u)) :
    e.getBinding s name w = (.done u, w) := by
  simp only [getBinding, bind, Action.bind, Action.read, h]
  rfl

theorem getBinding_of_fault {f : Fault} (h : w.realm.resolve s name = .error f) :
    e.getBinding s name w = (.failed f, w) := by
  simp only [getBinding, bind, Action.bind, Action.read, h]
  rfl

theorem setBinding_of_fault {f : Fault} (h : w.realm.assignName s name v = .error f) :
    e.setBinding s name v w = (.failed f, w) := by
  simp only [setBinding, bind, Action.bind, Action.read, h]
  rfl

theorem setBinding_of_assignName {a : Assignment κ} (h : w.realm.assignName s name v = .ok a) :
    e.setBinding s name v w = e.finishAssignment v a w := by
  simp only [setBinding, bind, Action.bind, Action.read, h]
  rfl

theorem getBinding_setBinding_cases (e : Engine κ σ) {options : Options}
    (hr : Realm.Reached (fun _ => True) options w.realm) (hp : w.realm.PlainLinks s name)
    (v : Value) :
    (∃ f, w.realm.Unresolved s name f ∧ e.getBinding s name w = (.failed f, w) ∧
        e.setBinding s name v w = (.failed f, w)) ∨
      ∃ u, e.getBinding s name w = (.done u, w) ∧
        (e.setBinding s name v w = (.failed (.constAssignment name), w) ∨
          ∃ w', e.setBinding s name v w = (.done (), w')) := by
  have hready := fun t => Realm.varsReady_of_reached hr t
  rcases Realm.resolve_assignName_cases hready hp v with
    ⟨f, hf, hresolve, hassign⟩ | ⟨u, hresolve, hassign⟩
  · exact Or.inl ⟨f, hf, getBinding_of_fault hresolve, setBinding_of_fault hassign⟩
  · refine Or.inr ⟨u, getBinding_of_resolve hresolve, ?_⟩
    rcases hassign with hassign | hassign | ⟨r', hassign⟩
    · exact Or.inl (setBinding_of_fault hassign)
    · exact Or.inr ⟨_, setBinding_of_assignName hassign⟩
    · exact Or.inr ⟨_, setBinding_of_assignName hassign⟩

/-- Reading a name and assigning to it meet at one place. Whatever keeps the name from being
resolved makes both fail alike; assigning fails else only for a constant, and a failure changes
nothing. Where the name is held at its place itself, what was assigned is read back, and it is all
that has changed, but for the variable that the property stands in for. -/
theorem getBinding_meets_setBinding (e : Engine κ σ) {w : World κ σ} {options : Options}
    (hr : Realm.Reached (fun _ => True) options w.realm) {s : ScopeId} {name : String}
    (hp : w.realm.PlainLinks s name) (v : Value) :
    (∀ f, w.realm.Unresolved s name f →
      ((e.getBinding s name w).1 = .failed f ↔ (e.setBinding s name v w).1 = .failed f)) ∧
    ((∃ u, e.getBinding s name w = (.done u, w)) ∨
      ∃ f, w.realm.Unresolved s name f ∧ e.getBinding s name w = (.failed f, w)) ∧
    ((∃ w', e.setBinding s name v w = (.done (), w')) ∨
      ∃ f, (w.realm.Unresolved s name f ∨ f = .constAssignment name) ∧
        e.setBinding s name v w = (.failed f, w)) ∧
    ∀ p w', e.setBinding s name v w = (.done (), w') → w.realm.place s name = .ok p →
      w.realm.Direct name p →
      e.getBinding s name w' = (.done v, w') ∧ w'.host = w.host ∧
        w.realm.WritesOnly w'.realm name p := by
  have hcases := getBinding_setBinding_cases e hr hp v
  refine ⟨fun f hf => ?_, ?_, ?_, fun p w' hset hplace hdirect => ?_⟩
  · rcases hcases with ⟨g, -, hget, hset⟩ | ⟨u, hget, hset | ⟨w', hset⟩⟩
    · rw [hget, hset]
      refine ⟨fun h => ?_, fun h => ?_⟩
      · rw [Outcome.failed.inj h]
      · rw [Outcome.failed.inj h]
    · rw [hget, hset]
      refine ⟨nofun, fun h => ?_⟩
      obtain rfl := Outcome.failed.inj h
      exact absurd hf Realm.not_unresolved_constAssignment
    · rw [hget, hset]
      exact ⟨nofun, nofun⟩
  · rcases hcases with ⟨f, hf, hget, -⟩ | ⟨u, hget, -⟩
    · exact Or.inr ⟨f, hf, hget⟩
    · exact Or.inl ⟨u, hget⟩
  · rcases hcases with ⟨f, hf, -, hset⟩ | ⟨u, -, hset | hset⟩
    · exact Or.inr ⟨f, Or.inl hf, hset⟩
    · exact Or.inr ⟨_, Or.inr rfl, hset⟩
    · exact Or.inl hset
  · cases hassign : w.realm.assignName s name v with
    | error f =>
      rw [setBinding_of_fault hassign] at hset
      cases hset
    | ok a =>
      obtain ⟨r', rfl, hwritten⟩ := Realm.written_of_assignName hp hplace hdirect hassign
      rw [setBinding_of_assignName hassign] at hset
      obtain rfl := (Prod.mk.inj hset).2
      exact ⟨getBinding_of_resolve (hwritten.resolve_eq hplace), rfl, hwritten.only⟩

/-- A variable of the global scope that a block inside it sees as a property of the global object:
assigning to it from the block reaches both. -/
theorem getBinding_meets_setBinding_global :
    let r := (((Realm.fresh {} : Realm Unit).declareVar ⟨0⟩ "x" .null false).2.addScope .block
      (some ⟨0⟩)).2
    let w : World Unit Unit := ⟨r, ()⟩
    let e : Engine Unit Unit := Library.engine ⟨fun _ _ _ => .pure .null, fun _ _ => .pure none⟩ 0
    Realm.Reached (fun _ => True) {} r ∧ r.PlainLinks ⟨1⟩ "x" ∧
      r.place ⟨1⟩ "x" = .ok (.property r.globalObject) ∧ r.Direct "x" (.property r.globalObject) ∧
      ∃ w', e.setBinding ⟨1⟩ "x" (.boolean true) w = (.done (), w') ∧
        e.getBinding ⟨1⟩ "x" w' = (.done (.boolean true), w') ∧
        r.WritesOnly w'.realm "x" (.property r.globalObject) ∧
        (w'.realm.scope ⟨0⟩).vars.get? "x" = some (.init .varName (.boolean true)) := by
  intro r w e
  have hr : Realm.Reached (fun _ => True) {} r :=
    (Realm.Reached.fresh.step (.declareVar trivial)).step (.addScope trivial)
  have hlinked : ∀ t ∈ r.chain ⟨1⟩, ∀ o, (r.scope t).linked = some o → o = r.globalObject := by
    have hchain : r.chain ⟨1⟩ = [⟨1⟩, ⟨0⟩] := by decide +kernel
    have hblock : (r.scope ⟨1⟩).linked = none := by decide +kernel
    have hglobal : (r.scope ⟨0⟩).linked = some r.globalObject := by decide +kernel
    rw [hchain]
    intro t ht o ho
    rcases List.mem_pair.1 ht with rfl | rfl
    · rw [hblock] at ho
      cases ho
    · rw [hglobal] at ho
      exact (Option.some.inj ho).symm
  have hp : r.PlainLinks ⟨1⟩ "x" := by
    refine ⟨fun t ht o ho => Realm.noAccessor_of_cells (by decide +kernel), ?_⟩
    intro t ht o data ho hd
    rw [hlinked t ht o ho] at hd
    have helements : (r.heap.get? r.globalObject).map (·.elements) = some none := by
      decide +kernel
    rw [hd] at helements
    exact Option.some.inj helements
  have hplace : r.place ⟨1⟩ "x" = .ok (.property r.globalObject) := by decide +kernel
  have hdirect : r.Direct "x" (.property r.globalObject) :=
    ⟨.null, true, false, by decide +kernel⟩
  obtain ⟨-, -, -, hback⟩ := getBinding_meets_setBinding e (w := w) hr hp (.boolean true)
  have hset : e.setBinding ⟨1⟩ "x" (.boolean true) w =
      (.done (), (e.setBinding ⟨1⟩ "x" (.boolean true) w).2) := rfl
  obtain ⟨hget, -, honly⟩ := hback _ _ hset hplace hdirect
  refine ⟨hr, hp, hplace, hdirect, _, hset, hget, honly, ?_⟩
  decide +kernel

end Engine

end Ecma
