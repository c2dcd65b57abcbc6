import Ecma.Proofs.Hoisting

/-!
# Copying a property

A descriptor can describe a property in full, and defining it elsewhere copies the property. There
is one exception: an accessor that is absent from a property is left open by its descriptor, and
what is left open is taken from the property that is replaced. `Property.Lacks` says when that
happens. The main result `Realm.property_copied` says that a copy is exact in all other cases, and
what it is in this one. It needs that no property has accessors without having any
(`Realm.supplied_of_reached`), since such a property would be described by nothing at all; like
everything that holds of properties with a value and is kept by descriptors, that holds of all
stored properties (`Realm.allStored_of_reached`).
-/

namespace Ecma

variable {κ : Type}

/-! ## What holds of all stored properties -/

/-- Properties with a value have it, and a descriptor that completes a property that has it makes
another one. -/
structure Property.Kept (P : Property → Prop) : Prop where
  data : ∀ v w e c, P (.data v w e c)
  complete : ∀ (d : Descriptor) current, (∀ p, current = some p → P p) → P (d.complete current)

theorem Property.Kept.of_value? {P : Property → Prop} (hP : Property.Kept P) {p : Property}
    {v : Value} (h : p.value? = some v) : P p := by
  cases p with
  | data u w e c => exact hP.data u w e c
  | accessor g s e c => cases h

/-- All stored properties of an object have something. -/
def Object.AllStored (P : Property → Prop) (o : Object κ) : Prop :=
  ∀ key p, o.properties.get? key = some p → P p

namespace Object.AllStored

variable {P : Property → Prop} {o : Object κ}

theorem of_empty (h : o.properties = .empty) : o.AllStored P := by
  intro key p hp
  rw [h] at hp
  cases hp

/-- Only the stored properties count. -/
theorem of_eq {o' : Object κ} (h : o.AllStored P) (hproperties : o'.properties = o.properties) :
    o'.AllStored P := by
  intro key p hp
  rw [hproperties] at hp
  exact h key p hp

theorem putProperty (h : o.AllStored P) (key : Text) {p : Property} (hp : P p) :
    (o.putProperty key p).AllStored P := by
  intro k q hq
  rw [Object.putProperty, OrderedMap.get?_insert] at hq
  split at hq
  · exact Option.some.inj hq ▸ hp
  · exact h k q hq

theorem erase (h : o.AllStored P) (key : Text) :
    ({ o with properties := o.properties.erase key } : Object κ).AllStored P := by
  intro k q hq
  rw [OrderedMap.get?_erase] at hq
  split at hq
  · cases hq
  · exact h k q hq

variable (hP : Property.Kept P)
include hP

theorem own? (h : o.AllStored P) {key : Text} {p : Property} (hp : o.own? key = some p) : P p := by
  rcases Option.or_eq_some_iff.1 hp with hstored | ⟨-, helement⟩
  · exact h key p hstored
  · cases p with
    | data v w e c => exact hP.data v w e c
    | accessor g s e c => cases isAccessor_of_elementProperty? helement

theorem putData (h : o.AllStored P) (key : Text) (v : Value) (w e c : Bool) :
    (o.putProperty key (.data v w e c)).AllStored P := h.putProperty key (hP.data v w e c)

/-- A value that is carried over changes no accessor. -/
theorem carry (h : o.AllStored P) (key : Text) (v : Value) : (o.carry key v).AllStored P := by
  refine h.putProperty key ?_
  cases hget : o.properties.get? key with
  | none => exact hP.data _ _ _ _
  | some p =>
    cases p with
    | data u w e c => exact hP.data _ _ _ _
    | accessor g s e c => exact h key _ hget

theorem assign {o' : Object κ} (h : o.AllStored P) {key : Text} {v : Value}
    (ha : o.assign key v = .ok (.object o')) : o'.AllStored P := by
  rcases assign_eq_object ha with ⟨p, hp, rfl⟩ | ⟨-, elements, rfl, -⟩
  · exact h.putProperty key (hP.of_value? hp)
  · exact h.of_eq rfl

theorem define {o' : Object κ} (h : o.AllStored P) {key : Text} {d : Descriptor}
    (hd : o.define key d = .ok o') : o'.AllStored P := by
  rcases define_eq_ok hd with rfl | ⟨-, elements, rfl, -⟩
  · exact h.putProperty key (hP.complete d _ fun p hp => h.own? hP hp)
  · exact h.of_eq rfl

end Object.AllStored

namespace Realm

/-- All stored properties of all objects have something. -/
def AllStored (P : Property → Prop) (r : Realm κ) : Prop := r.EachObject (Object.AllStored P)

namespace AllStored

variable {P : Property → Prop} {r r' : Realm κ} {o : ObjectId} {data : Object κ}

theorem allocate (h : r.AllStored P) {new : Object κ} (hnew : new.AllStored P) :
    (r.allocate new).2.AllStored P := EachObject.allocate h fun _ => hnew

theorem modify (h : r.AllStored P) {f : Object κ → Object κ} (heap : r'.heap = r.heap.modify o f)
    (hf : ∀ data : Object κ, data.AllStored P → (f data).AllStored P) : r'.AllStored P :=
  EachObject.modify h heap fun data _ => hf data

theorem modify_frame (h : r.AllStored P) {f : Object κ → Object κ}
    (heap : r'.heap = r.heap.modify o f) (hf : ∀ data, (f data).properties = data.properties) :
    r'.AllStored P := h.modify heap fun data hdata => hdata.of_eq (hf data)

theorem replace (h : r.AllStored P) (hd : r.heap.get? o = some data) {data' : Object κ}
    (heap : r'.heap = r.heap.replace o data') (hdata : data.AllStored P → data'.AllStored P) :
    r'.AllStored P := EachObject.replace h hd heap hdata

variable (hP : Property.Kept P)
include hP

theorem createFunction (h : r.AllStored P) (f : Callable κ) :
    (r.createFunction f).2.AllStored P := by
  refine h.allocate (Object.AllStored.of_eq (.putData hP (.putData hP ?_ _ _ _ _ _) _ _ _ _ _) rfl)
  exact .of_empty rfl

theorem createConstructor (h : r.AllStored P) (call construct : Callable κ) :
    (r.createConstructor call construct).2.AllStored P := by
  have hfunc := h.createFunction hP call
  rcases hf : r.createFunction call with ⟨func, r1⟩
  rw [hf] at hfunc
  have hproto : r1.createObject.2.AllStored P := hfunc.allocate (.of_empty rfl)
  rcases hc : r1.createObject with ⟨proto, r2⟩
  rw [hc] at hproto
  simp only [Realm.createConstructor, hf, hc]
  refine (hproto.modify (o := proto) rfl fun data hdata => ?_).modify (o := func) rfl
    fun data hdata => ?_
  · exact hdata.putData hP _ _ _ _ _
  · exact (hdata.putData hP prototypeKey (.object proto) true false false).of_eq rfl

theorem assign (h : r.AllStored P) {key : Text} {v : Value}
    (ha : r.assign o key v = .ok (.stored r')) : r'.AllStored P := by
  obtain ⟨data, data', hd, hdata, rfl⟩ := assign_eq_stored ha
  exact h.replace hd (heap_sync _ _ _) fun hstored => hstored.assign hP hdata

theorem settles (h : r.AllStored P) {req : Request κ} {name : String} {v : Value}
    {f : Option Fault} (hs : r.Settles req name v f r') : r'.AllStored P := by
  cases hs with
  | kept hw => exact h
  | lexical hw s b => exact h
  | unlinked hw hl => exact h
  | dead hw hl hd => exact h
  | published hp hw hl hd => exact h.replace hd rfl fun hstored => hstored.carry hP _ _
  | adopted hp hw hl hd hown hr =>
    rcases hr with rfl | ⟨u, -, rfl⟩
    · exact h
    · exact h
  | added hp hw hl hd hown deletable =>
    exact h.replace hd rfl fun hstored => hstored.putData hP _ _ _ _ _

theorem step {allowed : Request κ → Prop} (h : r.AllStored P) (hs : Step allowed r r') :
    r'.AllStored P := by
  cases hs with
  | create kind prototype => exact h.allocate (.of_empty rfl)
  | createFunction ha => exact h.createFunction hP _
  | createIterator ha => exact h.allocate (.of_empty rfl)
  | createArray ha => exact h.allocate (.of_empty rfl)
  | createError kind message =>
    exact h.allocate (.of_eq (Object.AllStored.putData hP (.of_empty rfl) _ _ _ _ _) rfl)
  | createConstructor ha => exact h.createConstructor hP _ _
  | assign ha => exact h.assign hP ha
  | assignName ha =>
    obtain ⟨s, -, hs⟩ := assignIn_eq_stored ha
    cases hs with
    | lexical hb ha => exact h
    | var hb ha hl => exact h
    | property hl ha => exact h.assign hP ha
  | define ha hd =>
    obtain ⟨data, data', hlive, hdata, rfl⟩ := define_eq_ok hd
    exact h.replace hlive (heap_sync _ _ _) fun hstored => hstored.define hP hdata
  | delete ha hd =>
    rcases delete_eq_ok hd with rfl | ⟨data, data', hlive, ⟨hdel, rfl⟩ | ⟨hdel, rfl⟩⟩
    · exact h
    · refine h.replace hlive (heap_unlink _ _ _) fun hstored => ?_
      rw [Object.delete_eq_property hdel]
      exact hstored.erase _
    · refine h.replace hlive rfl fun hstored => ?_
      rcases Object.delete_eq_element hdel with rfl | ⟨-, elements, rfl, -⟩
      · exact hstored
      · exact hstored.of_eq rfl
  | setPrototype ha hset =>
    rcases setPrototype_eq_ok hset with rfl | ⟨data, hlive, -, rfl⟩
    · exact h
    · exact h.replace hlive rfl fun hstored => hstored.of_eq rfl
  | preventExtensions ha hset =>
    obtain ⟨data, hlive, rfl⟩ := preventExtensions_eq_ok hset
    exact h.replace hlive rfl fun hstored => hstored.of_eq rfl
  | writeHidden ha =>
    exact h.modify rfl fun _ hstored => hstored.putData hP _ _ _ _ _
  | writePrototype ha => exact h.modify_frame rfl fun _ => rfl
  | writeSlot ha => exact h.modify_frame rfl fun _ => rfl
  | writeElements ha => exact h.modify_frame rfl fun _ => rfl
  | declare ha => exact h.settles hP (settles_declare r _ _ _ _)
  | setInScope ha => exact h.settles hP (settles_setInScope r _ _ _)
  | declareVar ha => exact h.settles hP (settles_declareVar r _ _ _ _)
  | hoistFunction ha => exact h.settles hP (settles_hoistFunction r _ _ _)
  | link ha =>
    refine EachObject.link ?_ ?_ h _ _
    · exact fun data key v w e c hdata => hdata.putData hP key v w e c
    · exact fun data s hdata => hdata.of_eq rfl
  | defineBuiltin ha =>
    refine EachObject.defineBuiltin ?_ h _ _
    exact fun data key v w e c hdata => hdata.putData hP key v w e c
  | collect scopes values =>
    exact fun o data hd => h o data (get?_collect_eq_some_iff.1 hd).1
  | exhaust p producer =>
    refine h.modify_frame rfl fun data => ?_
    split <;> rfl
  | createSymbol ha => exact h
  | addScope ha => exact h
  | createUninitialized ha => exact h
  | startProducer p => exact h
  | stopProducer p => exact h
  | enterJoin p => exact h
  | leaveJoin => exact h

theorem fresh (options : Options) : (fresh options : Realm κ).AllStored P := by
  refine EachObject.fresh (P := Object.AllStored P) ?_ ?_ (fun i id => ?_) ?_ options
  · exact fun data key v w e c h => h.putData hP key v w e c
  · exact fun data s h => h.of_eq rfl
  · cases i with
    | error kind => exact .putData hP (.putData hP (.of_empty rfl) _ _ _ _ _) _ _ _ _ _
    | _ => exact .of_empty rfl
  · exact fun id => .of_empty rfl

end AllStored

theorem allStored_of_reached {P : Property → Prop} (hP : Property.Kept P)
    {allowed : Request κ → Prop} {options : Options} {r : Realm κ}
    (h : Reached allowed options r) : r.AllStored P :=
  h.induction (P := AllStored P) (.fresh hP options) fun _ _ hr hs => hr.step hP hs

end Realm

/-! ## Accessors that are absent -/

namespace Property

/-- A property with accessors has at least one of the two. -/
def Supplied : Property → Prop
  | data .. => True
  | accessor g s _ _ => g.isSome = true ∨ s.isSome = true

/-- A property with accessors is without one that another property with accessors has. -/
def Lacks : Property → Property → Prop
  | accessor g s _ _, accessor g' s' _ _ =>
    g = none ∧ g'.isSome = true ∨ s = none ∧ s'.isSome = true
  | _, _ => False

/-- The property with the accessors of another one where it has none. -/
def filledFrom : Property → Option Property → Property
  | accessor g s e c, some (accessor g' s' _ _) => accessor (g.or g') (s.or s') e c
  | p, _ => p

theorem filledFrom_eq_self_iff {p : Property} {current : Option Property} :
    p.filledFrom current = p ↔ ∀ q, current = some q → ¬p.Lacks q := by
  have hor : ∀ a b : Option Value, a.or b = a ↔ ¬(a = none ∧ b.isSome = true) := by
    intro a b
    cases a <;> cases b <;> simp
  match p, current with
  | data v w e c, _ => simp [filledFrom, Lacks]
  | accessor g s e c, none => simp [filledFrom]
  | accessor g s e c, some (data v w e' c') => simp [filledFrom, Lacks]
  | accessor g s e c, some (accessor g' s' e' c') =>
    have hsame : filledFrom (accessor g s e c) (some (accessor g' s' e' c')) = accessor g s e c ↔
        g.or g' = g ∧ s.or s' = s := by
      simp [filledFrom]
    rw [hsame, hor, hor, ← not_or]
    refine ⟨fun h q hq => ?_, fun h => h _ rfl⟩
    obtain rfl := Option.some.inj hq
    exact h

/-- A descriptor makes accessors only if it has one, and keeps those that were there. -/
theorem kept_supplied : Property.Kept Supplied := by
  refine ⟨fun v w e c => trivial, fun d current h => ?_⟩
  unfold Descriptor.complete
  dsimp only
  split
  · rename_i haccessor
    have hgiven : d.get.isSome = true ∨ d.set.isSome = true := Bool.or_eq_true_iff.1 haccessor
    split
    · refine hgiven.imp (fun hg => ?_) fun hs => ?_
      · rw [Option.isSome_or, hg]
        rfl
      · rw [Option.isSome_or, hs]
        rfl
    · exact hgiven
  · split
    · rename_i g s e c
      have hcurrent : (accessor g s e c).Supplied := h _ rfl
      split
      · trivial
      · exact hcurrent
    · trivial
    · trivial

end Property

/-- The full description of a property makes that property of any other one, apart from accessors
that it lacks. -/
theorem Descriptor.complete_ofProperty {p : Property} (hp : p.Supplied)
    (current : Option Property) :
    (ofProperty p).complete current = p.filledFrom current := by
  cases p with
  | data v w e c =>
    match current with
    | none => rfl
    | some (.data ..) => rfl
    | some (.accessor ..) => rfl
  | accessor g s e c =>
    have haccessor : (ofProperty (.accessor g s e c)).isAccessor = true :=
      Bool.or_eq_true_iff.2 hp
    unfold complete
    rw [if_pos haccessor]
    match current with
    | none => rfl
    | some (.data ..) => rfl
    | some (.accessor ..) => rfl

namespace Realm

variable {r : Realm κ} {o t : ObjectId} {k k₀ : Text} {p : Property} {data : Object κ}

/-- No property that can be met has accessors without having any. -/
theorem supplied_of_reached {allowed : Request κ → Prop} {options : Options}
    (h : Reached allowed options r) (hp : r.ownProperty? o k₀ = .ok (some p)) : p.Supplied := by
  obtain ⟨data, hobject, hown⟩ := Except.map_eq_ok hp
  have hstored := allStored_of_reached Property.kept_supplied h o data (object_eq_ok.1 hobject)
  exact hstored.own? Property.kept_supplied hown

/-- Copying a property through its description succeeds under every key but the length of dense
elements. The copy is the property itself, whatever was there before, unless the property lacks an
accessor that the property before had: then it keeps that one, and is else the property. -/
theorem property_copied {options : Options} (hr : Reached (fun _ => True) options r)
    (hp : r.ownProperty? o k₀ = .ok (some p)) (hd : r.heap.get? t = some data)
    (hlength : k = lengthKey → data.elements = none) :
    ∃ r', r.define t k (.ofProperty p) = .ok r' ∧
      (r'.ownProperty? t k = .ok (some p) ↔
        ∀ q, r.ownProperty? t k = .ok (some q) → ¬p.Lacks q) ∧
      ∀ g s e c g' s' e' c', p = .accessor g s e c →
        r.ownProperty? t k = .ok (some (.accessor g' s' e' c')) →
        r'.ownProperty? t k = .ok (some (.accessor (g.or g') (s.or s') e c)) := by
  obtain ⟨r', data', hdefine, hd', -, hown, -⟩ := define_shows hd hlength (.ofProperty p)
  have hcopy : data'.own? k = some (p.filledFrom (data.own? k)) := by
    rw [hown, if_pos rfl, Descriptor.complete_ofProperty (supplied_of_reached hr hp)]
  refine ⟨r', hdefine, ?_, fun g s e c g' s' e' c' hpa hq => ?_⟩
  · rw [ownProperty?_of_get? hd', ownProperty?_of_get? hd, hcopy]
    simp only [Except.ok.injEq, Option.some.injEq]
    exact Property.filledFrom_eq_self_iff
  · rw [ownProperty?_of_get? hd] at hq
    rw [ownProperty?_of_get? hd', hcopy, hpa, Except.ok.inj hq]
    rfl

/-- A getter that is copied over a value is all that is there afterwards. -/
theorem property_copied_over_value :
    let x := Text.ofString "x"
    let r : Realm Unit := [.createFunction ⟨"f", 0, .idle, [], []⟩, .create .ordinary none,
      .create .ordinary none, .define ⟨11⟩ x { get := some (.object ⟨10⟩) },
      .set ⟨12⟩ x (.boolean true)].foldl answer (fresh {})
    let p := Property.accessor (some (.object ⟨10⟩)) none false false
    Reached (fun _ => True) {} r ∧ r.ownProperty? ⟨11⟩ x = .ok (some p) ∧
      r.ownProperty? ⟨12⟩ x = .ok (some (.plain (.boolean true))) ∧
      ∃ r', r.define ⟨12⟩ x (.ofProperty p) = .ok r' ∧ r'.ownProperty? ⟨12⟩ x = .ok (some p) := by
  intro x r p
  have hr : Reached (fun _ => True) {} r := Reached.fresh.requests _ fun _ _ => trivial
  have hp : r.ownProperty? ⟨11⟩ x = .ok (some p) := by decide +kernel
  have hold : r.ownProperty? ⟨12⟩ x = .ok (some (.plain (.boolean true))) := by decide +kernel
  obtain ⟨data, hobject, -⟩ := Except.map_eq_ok hold
  have hx : x ≠ lengthKey := by decide +kernel
  obtain ⟨r', hdefine, hexact, -⟩ :=
    property_copied hr hp (object_eq_ok.1 hobject) fun h => absurd h hx
  refine ⟨hr, hp, hold, r', hdefine, hexact.2 fun q hq => ?_⟩
  obtain rfl := Option.some.inj (Except.ok.inj (hold.symm.trans hq))
  exact id

/-- A getter that is copied over a setter has that setter afterwards, which the property that was
copied does not have. -/
theorem setter_kept_by_copy :
    let x := Text.ofString "x"
    let r : Realm Unit := [.createFunction ⟨"g", 0, .idle, [], []⟩,
      .createFunction ⟨"s", 0, .idle, [], []⟩, .create .ordinary none, .create .ordinary none,
      .define ⟨12⟩ x { get := some (.object ⟨10⟩) },
      .define ⟨13⟩ x { set := some (.object ⟨11⟩) }].foldl answer (fresh {})
    let p := Property.accessor (some (.object ⟨10⟩)) none false false
    Reached (fun _ => True) {} r ∧ r.ownProperty? ⟨12⟩ x = .ok (some p) ∧
      r.heap.isLive ⟨13⟩ = true ∧ (r.heap.get? ⟨13⟩).bind Object.elements = none ∧
      ∃ r', r.define ⟨13⟩ x (.ofProperty p) = .ok r' ∧
        r'.ownProperty? ⟨13⟩ x ≠ .ok (some p) ∧
        r'.ownProperty? ⟨13⟩ x =
          .ok (some (.accessor (some (.object ⟨10⟩)) (some (.object ⟨11⟩)) false false)) := by
  intro x r p
  have hr : Reached (fun _ => True) {} r := Reached.fresh.requests _ fun _ _ => trivial
  have hcopy : ((r.define ⟨13⟩ x (.ofProperty p)).bind fun r' => r'.ownProperty? ⟨13⟩ x) =
      .ok (some (.accessor (some (.object ⟨10⟩)) (some (.object ⟨11⟩)) false false)) := by
    decide +kernel
  obtain ⟨r', hdefine, hown⟩ := Except.bind_eq_ok hcopy
  refine ⟨hr, by decide +kernel, by decide +kernel, by decide +kernel, r', hdefine, ?_, hown⟩
  rw [hown]
  decide

end Realm

end Ecma
