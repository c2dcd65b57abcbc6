import Ecma.Proofs.Arena

/-!
# Lineages

The lineage of an object is what following prototypes from it meets, up to the object that inherits
from nothing. A heap is *grounded* if every object in it has a lineage, all that objects hold lives,
and the prototypes that a realm starts with are there (`Heap.Grounded`). Allocating and changing
objects in place keep a heap grounded as long as they are given what lives. Only a new prototype
could make a lineage come back to where it started, and it does not if the object that gets it is
not on the lineage of that prototype (`Heap.Grounded.reparent`).
-/

namespace Ecma

variable {κ : Type}

/-! ## What objects hold -/

theorem Property.eq_data_of_value? {p : Property} {v : Value} (h : p.value? = some v) :
    ∃ w e c, p = .data v w e c := by
  cases p with
  | data u w e c =>
    obtain rfl := Option.some.inj h
    exact ⟨w, e, c, rfl⟩
  | accessor g s e c => cases h

/-- The value of a completed property was given, or there before, or undefined. -/
theorem Descriptor.value?_complete {d : Descriptor} {current : Option Property} {v : Value}
    (h : (d.complete current).value? = some v) :
    d.value = some v ∨ (∃ p, current = some p ∧ p.value? = some v) ∨ v = .undefined := by
  have hgetD : ∀ u, d.value.getD u = v → d.value = some v ∨ u = v := by
    intro u hu
    cases hd : d.value with
    | none =>
      rw [hd] at hu
      exact Or.inr hu
    | some x =>
      rw [hd] at hu
      exact Or.inl (congrArg some hu)
  unfold complete at h
  dsimp only at h
  split at h
  · split at h <;> cases h
  · split at h
    · split at h
      · exact (hgetD _ (Option.some.inj h)).imp id fun hu => Or.inr hu.symm
      · cases h
    · rename_i u w e c
      exact (hgetD u (Option.some.inj h)).imp id fun hu => Or.inl ⟨_, rfl, congrArg some hu⟩
    · exact (hgetD _ (Option.some.inj h)).imp id fun hu => Or.inr hu.symm

namespace Object

/-- All values of properties and all dense elements are in a class. -/
structure HoldsOnly (P : Value → Prop) (o : Object κ) : Prop where
  value : ∀ key p, o.properties.get? key = some p → ∀ v, p.value? = some v → P v
  element : ∀ v, o.HasElement v → P v

namespace HoldsOnly

variable {P : Value → Prop} {o o' : Object κ} {key : Text}

theorem make (kind : ObjectKind) (prototype : Option ObjectId) :
    (Object.make kind prototype : Object κ).HoldsOnly P := by
  refine ⟨fun key p hp => ?_, ?_⟩
  · cases hp
  · rintro v ⟨elements, he, -⟩
    cases he

theorem mono {Q : Value → Prop} (h : o.HoldsOnly P) (hPQ : ∀ v, P v → Q v) : o.HoldsOnly Q :=
  ⟨fun key p hp v hv => hPQ v (h.value key p hp v hv), fun v hv => hPQ v (h.element v hv)⟩

/-- Only properties and elements count. -/
theorem of_eq (h : o.HoldsOnly P) (hp : o'.properties = o.properties)
    (he : o'.elements = o.elements) : o'.HoldsOnly P := by
  refine ⟨fun key p hget => h.value key p (hp ▸ hget), ?_⟩
  rintro v ⟨elements, hes, hv⟩
  exact h.element v ⟨elements, he ▸ hes, hv⟩

theorem putProperty (h : o.HoldsOnly P) (key : Text) (p : Property)
    (hp : ∀ v, p.value? = some v → P v) : (o.putProperty key p).HoldsOnly P := by
  refine ⟨fun k q hq => ?_, h.element⟩
  rw [Object.putProperty, OrderedMap.get?_insert] at hq
  split at hq
  · obtain rfl := Option.some.inj hq
    exact hp
  · exact h.value k q hq

theorem putHidden (h : o.HoldsOnly P) (key : Text) {v : Value} (hv : P v) :
    (o.putHidden key v).HoldsOnly P := by
  refine h.putProperty key _ fun u hu => ?_
  obtain rfl := Option.some.inj hu
  exact hv

theorem erase (h : o.HoldsOnly P) :
    ({ o with properties := o.properties.erase key } : Object κ).HoldsOnly P := by
  refine ⟨fun k q hq => ?_, h.element⟩
  rw [OrderedMap.get?_erase] at hq
  split at hq
  · cases hq
  · exact h.value k q hq

theorem withElements (h : o.HoldsOnly P) {elements : Array Value} (he : ∀ v ∈ elements, P v) :
    ({ o with elements := some elements } : Object κ).HoldsOnly P := by
  refine ⟨h.value, ?_⟩
  rintro v ⟨es, hes, hv⟩
  obtain rfl := Option.some.inj hes
  exact he v hv

section Operations

variable (hP : ∀ v : Value, v.isObject = false → P v)
include hP

/-- An own property holds what the object holds, or the number of its elements. -/
theorem own? (h : o.HoldsOnly P) {p : Property} {v : Value} (hp : o.own? key = some p)
    (hv : p.value? = some v) : P v := by
  unfold Object.own? at hp
  cases hget : o.properties.get? key with
  | some q =>
    rw [hget, Option.some_or] at hp
    obtain rfl := Option.some.inj hp
    exact h.value key q hget v hv
  | none =>
    rw [hget, Option.none_or] at hp
    unfold elementProperty? at hp
    obtain ⟨elements, he, hp⟩ := Option.bind_eq_some_iff.1 hp
    split at hp
    · obtain rfl := Option.some.inj hp
      obtain rfl := Option.some.inj hv
      exact hP _ rfl
    · obtain ⟨i, -, hp⟩ := Option.bind_eq_some_iff.1 hp
      obtain ⟨u, hu, hp⟩ := Option.bind_eq_some_iff.1 hp
      obtain rfl := Option.some.inj hp
      obtain rfl := Option.some.inj hv
      exact h.element _ ⟨elements, he, Array.mem_of_getElem? hu⟩

theorem assign (h : o.HoldsOnly P) {v : Value} (hv : P v)
    (ha : o.assign key v = .ok (.object o')) : o'.HoldsOnly P := by
  rcases assign_eq_object ha with ⟨p, hp, rfl⟩ | ⟨-, elements, rfl, he⟩
  · refine h.putProperty key _ fun u hu => ?_
    rw [hp] at hu
    obtain rfl := Option.some.inj hu
    exact hv
  · refine h.withElements fun u hu => ?_
    rcases he u hu with hu | rfl | rfl
    · exact h.element u hu
    · exact hv
    · exact hP _ rfl

theorem define (h : o.HoldsOnly P) {d : Descriptor} (hd : ∀ v, d.value = some v → P v)
    (hdef : o.define key d = .ok o') : o'.HoldsOnly P := by
  rcases define_eq_ok hdef with rfl | ⟨-, elements, rfl, he⟩
  · refine h.putProperty key _ fun u hu => ?_
    rcases Descriptor.value?_complete hu with hu | ⟨p, hp, hu⟩ | rfl
    · exact hd u hu
    · exact h.own? hP hp hu
    · exact hP _ rfl
  · refine h.withElements fun u hu => ?_
    rcases he u hu with hu | hu | rfl
    · exact h.element u hu
    · exact hd u hu
    · exact hP _ rfl

theorem deleteElement (h : o.HoldsOnly P) (hdel : o.delete key = .element o') :
    o'.HoldsOnly P := by
  rcases delete_eq_element hdel with rfl | ⟨-, elements, rfl, he⟩
  · exact h
  · refine h.withElements fun u hu => ?_
    rcases he u hu with hu | rfl
    · exact h.element u hu
    · exact hP _ rfl

end Operations

end HoldsOnly

end Object

namespace Heap

/-- Whether a value is no handle, or the handle of an object that lives. -/
def holds (h : Heap κ) : Value → Bool
  | .object o => h.isLive o
  | _ => true

/-- All that an object holds lives. -/
abbrev HoldsLive (h : Heap κ) (data : Object κ) : Prop := data.HoldsOnly fun v => h.holds v = true

theorem holds_of_not_isObject (h : Heap κ) (v : Value) (hv : v.isObject = false) :
    h.holds v = true := by
  cases v with
  | object o => cases hv
  | _ => rfl

theorem holds_mono {h h' : Heap κ} (hlive : ∀ o, h.isLive o = true → h'.isLive o = true)
    (v : Value) (hv : h.holds v = true) : h'.holds v = true := by
  cases v with
  | object o => exact hlive o hv
  | _ => rfl

theorem isLive_of_get? {h : Heap κ} {o : ObjectId} {data : Object κ} (hd : h.get? o = some data) :
    h.isLive o = true := isLive_iff.2 ⟨data, hd⟩

/-! ## Lineages -/

/-- The objects met by following prototypes from one, up to one that inherits from nothing. -/
inductive Lineage (h : Heap κ) : ObjectId → List ObjectId → Prop where
  | last {o : ObjectId} {data : Object κ} (hd : h.get? o = some data)
      (hp : data.prototype = none) : Lineage h o [o]
  | cons {o p : ObjectId} {data : Object κ} {l : List ObjectId} (hd : h.get? o = some data)
      (hp : data.prototype = some p) (hl : Lineage h p l) : Lineage h o (o :: l)

namespace Lineage

variable {h h' : Heap κ} {o : ObjectId} {l : List ObjectId}

theorem isLive (hl : h.Lineage o l) : h.isLive o = true := by
  cases hl with
  | last hd hp => exact isLive_of_get? hd
  | cons hd hp hl => exact isLive_of_get? hd

/-- Following prototypes leaves no choice. -/
theorem unique (hl : h.Lineage o l) {l' : List ObjectId} (hl' : h.Lineage o l') : l = l' := by
  induction hl generalizing l' with
  | last hd hp =>
    cases hl' with
    | last hd' hp' => rfl
    | cons hd' hp' hl' =>
      rw [hd] at hd'
      obtain rfl := Option.some.inj hd'
      rw [hp] at hp'
      cases hp'
  | cons hd hp hl ih =>
    cases hl' with
    | last hd' hp' =>
      rw [hd] at hd'
      obtain rfl := Option.some.inj hd'
      rw [hp] at hp'
      cases hp'
    | cons hd' hp' hl' =>
      rw [hd] at hd'
      obtain rfl := Option.some.inj hd'
      rw [hp] at hp'
      obtain rfl := Option.some.inj hp'
      rw [ih hl']

/-- What is met has the rest of the lineage. -/
theorem exists_suffix (hl : h.Lineage o l) {p : ObjectId} (hp : p ∈ l) :
    ∃ l', l' <:+ l ∧ h.Lineage p l' := by
  induction hl with
  | last hd hn =>
    obtain rfl := List.mem_singleton.1 hp
    exact ⟨_, List.suffix_rfl, .last hd hn⟩
  | cons hd hn hl ih =>
    rcases List.mem_cons.1 hp with rfl | hp
    · exact ⟨_, List.suffix_rfl, .cons hd hn hl⟩
    · obtain ⟨l', hsuffix, hl'⟩ := ih hp
      exact ⟨l', hsuffix.trans (List.suffix_cons _ _), hl'⟩

/-- No object is met twice: its lineage would be part of itself. -/
theorem nodup (hl : h.Lineage o l) : l.Nodup := by
  induction hl with
  | last hd hp => exact List.nodup_singleton _
  | @cons o p data l hd hp hl ih =>
    refine List.nodup_cons.2 ⟨fun hmem => ?_, ih⟩
    obtain ⟨l', hsuffix, hl'⟩ := hl.exists_suffix hmem
    have hlength := hsuffix.length_le
    rw [hl'.unique (.cons hd hp hl), List.length_cons] at hlength
    omega

theorem isLive_prototype (hl : h.Lineage o l) {data : Object κ} (hd : h.get? o = some data)
    {p : ObjectId} (hp : data.prototype = some p) : h.isLive p = true := by
  cases hl with
  | last hd' hn =>
    rw [hd] at hd'
    rw [Option.some.inj hd', hn] at hp
    cases hp
  | cons hd' hq hl =>
    rw [hd] at hd'
    rw [Option.some.inj hd', hq] at hp
    obtain rfl := Option.some.inj hp
    exact hl.isLive

/-- No object with a lineage is its own prototype. -/
theorem prototype_ne (hl : h.Lineage o l) {data : Object κ} (hd : h.get? o = some data) :
    data.prototype ≠ some o := by
  intro hp
  have hlength := congrArg List.length (hl.unique (.cons hd hp hl))
  rw [List.length_cons] at hlength
  omega

/-- A lineage depends on the prototypes of the objects on it only. -/
theorem frame (hl : h.Lineage o l)
    (hkeep : ∀ p ∈ l, ∀ data, h.get? p = some data →
      ∃ data', h'.get? p = some data' ∧ data'.prototype = data.prototype) : h'.Lineage o l := by
  induction hl with
  | last hd hp =>
    obtain ⟨data', hd', hproto⟩ := hkeep _ List.mem_cons_self _ hd
    exact .last hd' (hproto.trans hp)
  | cons hd hp hl ih =>
    obtain ⟨data', hd', hproto⟩ := hkeep _ List.mem_cons_self _ hd
    exact .cons hd' (hproto.trans hp) (ih fun q hq => hkeep q (List.mem_cons_of_mem _ hq))

end Lineage

/-! ## Grounded heaps -/

/-- The heap is well formed, all that its objects hold lives, and every object has a lineage. -/
structure Sound (h : Heap κ) : Prop where
  wellFormed : h.WellFormed
  holdsLive : ∀ o data, h.get? o = some data → h.HoldsLive data
  lineage : ∀ o, h.isLive o = true → ∃ l, h.Lineage o l

/-- A sound heap with the prototypes that every realm starts with. -/
structure Grounded (h : Heap κ) : Prop extends Sound h where
  intrinsic : ∀ i : Intrinsic, h.isLive i.id = true

variable {h : Heap κ}

theorem sound_empty : (Heap.empty : Heap κ).Sound := by
  have hnone : ∀ o, (Heap.empty : Heap κ).get? o = none := fun o => by simp [empty, get?]
  refine ⟨wellFormed_empty, fun o data hd => ?_, fun o ho => ?_⟩
  · rw [hnone] at hd
    cases hd
  · rw [isLive, hnone] at ho
    cases ho

theorem WellFormed.isLive_allocate (hw : h.WellFormed) (data : Object κ) {o : ObjectId}
    (ho : h.isLive o = true) : (h.allocate data).2.isLive o = true := by
  rw [isLive, hw.get?_allocate]
  split
  · rfl
  · exact ho

theorem WellFormed.isLive_allocated (hw : h.WellFormed) (data : Object κ) :
    (h.allocate data).2.isLive (h.allocate data).1 = true := by
  rw [isLive, hw.get?_allocate, if_pos rfl]
  rfl

theorem isLive_modify (h : Heap κ) (o p : ObjectId) (f : Object κ → Object κ) :
    (h.modify o f).isLive p = h.isLive p := by
  rw [isLive, get?_modify]
  split
  · rename_i hp
    rw [hp, Option.isSome_map, isLive]
  · rfl

/-- A new object that inherits from one that lives, and holds only what lives. -/
theorem Sound.allocate (hs : h.Sound) {data : Object κ}
    (hproto : ∀ p, data.prototype = some p → h.isLive p = true) (hdata : h.HoldsLive data) :
    (h.allocate data).2.Sound := by
  have hw := hs.wellFormed
  have hmono : ∀ o, h.isLive o = true → (h.allocate data).2.isLive o = true :=
    fun o => hw.isLive_allocate data
  -- the new cell was empty, so no lineage leads through it
  have hold : ∀ {o l}, h.Lineage o l → (h.allocate data).2.Lineage o l := by
    intro o l hl
    refine hl.frame fun p _ d hd => ⟨d, ?_, rfl⟩
    have hne : p ≠ (h.allocate data).1 := by
      rintro rfl
      rw [hw.allocate_fresh data] at hd
      cases hd
    rw [hw.get?_allocate, if_neg hne, hd]
  have hnew : (h.allocate data).2.get? (h.allocate data).1 =
      some { data with id := (h.allocate data).1 } := by rw [hw.get?_allocate, if_pos rfl]
  refine ⟨hw.allocate data, fun o d hd => ?_, fun o ho => ?_⟩
  · rw [hw.get?_allocate] at hd
    split at hd
    · obtain rfl := Option.some.inj hd
      exact (hdata.mono (holds_mono hmono)).of_eq rfl rfl
    · exact (hs.holdsLive o d hd).mono (holds_mono hmono)
  · by_cases heq : o = (h.allocate data).1
    · subst heq
      cases hp : data.prototype with
      | none => exact ⟨_, .last hnew hp⟩
      | some p =>
        obtain ⟨l, hl⟩ := hs.lineage p (hproto p hp)
        exact ⟨_, .cons hnew hp (hold hl)⟩
    · rw [isLive, hw.get?_allocate, if_neg heq] at ho
      obtain ⟨l, hl⟩ := hs.lineage o ho
      exact ⟨l, hold hl⟩

/-- An object that is changed in place and keeps its prototype. -/
theorem Sound.modify (hs : h.Sound) {o : ObjectId} {f : Object κ → Object κ}
    (hid : ∀ data, h.get? o = some data → (f data).id = data.id)
    (hproto : ∀ data, h.get? o = some data → (f data).prototype = data.prototype)
    (hdata : ∀ data, h.get? o = some data → h.HoldsLive data → h.HoldsLive (f data)) :
    (h.modify o f).Sound := by
  have hmono : ∀ p, h.isLive p = true → (h.modify o f).isLive p = true := fun p hp => by
    rw [isLive_modify, hp]
  refine ⟨hs.wellFormed.modify hid, fun p d hd => ?_, fun p hp => ?_⟩
  · rw [get?_modify] at hd
    split at hd
    · obtain ⟨data, hdata', rfl⟩ := Option.map_eq_some_iff.1 hd
      exact (hdata data hdata' (hs.holdsLive o data hdata')).mono (holds_mono hmono)
    · exact (hs.holdsLive p d hd).mono (holds_mono hmono)
  · rw [isLive_modify] at hp
    obtain ⟨l, hl⟩ := hs.lineage p hp
    refine ⟨l, hl.frame fun q _ data hd => ?_⟩
    rw [get?_modify]
    split
    · rename_i hq
      rw [hq] at hd
      exact ⟨f data, by rw [hd]; rfl, hproto data hd⟩
    · exact ⟨data, hd, rfl⟩

/-- When an object is given a prototype whose lineage it is not on, lineages that led through it go
on with that one. -/
theorem Lineage.reparent {o : ObjectId} {data : Object κ} (hd : h.get? o = some data)
    {proto : Option ObjectId} (hproto : ∀ p, proto = some p → ∃ l, h.Lineage p l ∧ o ∉ l)
    {p : ObjectId} {l : List ObjectId} (hl : h.Lineage p l) :
    ∃ l', (h.replace o { data with prototype := proto }).Lineage p l' := by
  have hget : ∀ p, (h.replace o { data with prototype := proto }).get? p =
      if p = o then some { data with prototype := proto } else h.get? p := by
    intro p
    rw [get?_replace, hd]
    rfl
  -- the lineage of the new prototype is left alone
  have hself : ∃ l, (h.replace o { data with prototype := proto }).Lineage o l := by
    have hnew := (hget o).trans (if_pos rfl)
    cases hp : proto with
    | none => exact ⟨_, .last (hp ▸ hnew) rfl⟩
    | some p =>
      obtain ⟨l, hl, hnot⟩ := hproto p hp
      refine ⟨o :: l, .cons (hp ▸ hnew) rfl (hl.frame fun q hq d hq' => ⟨d, ?_, rfl⟩)⟩
      rw [← hp, hget, if_neg fun e : q = o => hnot (e ▸ hq), hq']
  induction hl with
  | @last p d hd' hn =>
    by_cases hp : p = o
    · exact hp ▸ hself
    · exact ⟨_, .last ((hget p).trans ((if_neg hp).trans hd')) hn⟩
  | @cons p q d l hd' hn hl ih =>
    by_cases hp : p = o
    · exact hp ▸ hself
    · obtain ⟨l', hl'⟩ := ih
      exact ⟨_, .cons ((hget p).trans ((if_neg hp).trans hd')) hn hl'⟩

theorem Sound.reparent (hs : h.Sound) {o : ObjectId} {data : Object κ}
    (hd : h.get? o = some data) {proto : Option ObjectId}
    (hproto : ∀ p, proto = some p → ∃ l, h.Lineage p l ∧ o ∉ l) :
    (h.replace o { data with prototype := proto }).Sound := by
  have hmono : ∀ p, h.isLive p = true →
      (h.replace o { data with prototype := proto }).isLive p = true := fun p hp => by
    rw [replace, isLive_modify, hp]
  refine ⟨hs.wellFormed.modify fun d hd' => ?_, fun p d hp => ?_, fun p hp => ?_⟩
  · rw [hd] at hd'
    rw [← Option.some.inj hd']
  · rw [get?_replace, hd] at hp
    split at hp
    · obtain rfl := Option.some.inj hp
      exact ((hs.holdsLive o data hd).mono (holds_mono hmono)).of_eq rfl rfl
    · exact (hs.holdsLive p d hp).mono (holds_mono hmono)
  · rw [replace, isLive_modify] at hp
    obtain ⟨l, hl⟩ := hs.lineage p hp
    exact hl.reparent hd hproto

namespace Grounded

theorem of_sound (hg : h.Grounded) {h' : Heap κ} (hs : h'.Sound)
    (hlive : ∀ o, h.isLive o = true → h'.isLive o = true) : h'.Grounded :=
  ⟨hs, fun i => hlive _ (hg.intrinsic i)⟩

theorem allocate (hg : h.Grounded) {data : Object κ}
    (hproto : ∀ p, data.prototype = some p → h.isLive p = true) (hdata : h.HoldsLive data) :
    (h.allocate data).2.Grounded :=
  hg.of_sound (hg.toSound.allocate hproto hdata) fun _ => hg.wellFormed.isLive_allocate data

/-- A new object that inherits from one of the prototypes that are always there. -/
theorem allocateIntrinsic (hg : h.Grounded) {data : Object κ} {i : Intrinsic}
    (hi : data.prototype = some i.id) (hdata : h.HoldsLive data) :
    (h.allocate data).2.Grounded := by
  refine hg.allocate (fun p hp => ?_) hdata
  rw [hi] at hp
  obtain rfl := Option.some.inj hp
  exact hg.intrinsic i

theorem modify (hg : h.Grounded) {o : ObjectId} {f : Object κ → Object κ}
    (hid : ∀ data, (f data).id = data.id) (hproto : ∀ data, (f data).prototype = data.prototype)
    (hdata : ∀ data, h.HoldsLive data → h.HoldsLive (f data)) : (h.modify o f).Grounded := by
  refine hg.of_sound (hg.toSound.modify (fun data _ => hid data) (fun data _ => hproto data)
    fun data _ => hdata data) fun p hp => ?_
  rw [isLive_modify, hp]

/-- An object that takes the place of another one with the same prototype. -/
theorem replace (hg : h.Grounded) {o : ObjectId} {data data' : Object κ}
    (hd : h.get? o = some data) (hid : data'.id = data.id)
    (hproto : data'.prototype = data.prototype) (hdata : h.HoldsLive data → h.HoldsLive data') :
    (h.replace o data').Grounded := by
  have heq : ∀ d, h.get? o = some d → d = data := fun d hd' => by
    rw [hd] at hd'
    exact (Option.some.inj hd').symm
  refine hg.of_sound (hg.toSound.modify (fun d hd' => ?_) (fun d hd' => ?_) fun d hd' hlive => ?_)
    fun p hp => ?_
  · rw [heq d hd', hid]
  · rw [heq d hd', hproto]
  · exact hdata (heq d hd' ▸ hlive)
  · rw [Heap.replace, isLive_modify, hp]

theorem reparent (hg : h.Grounded) {o : ObjectId} {data : Object κ}
    (hd : h.get? o = some data) {proto : Option ObjectId}
    (hproto : ∀ p, proto = some p → ∃ l, h.Lineage p l ∧ o ∉ l) :
    (h.replace o { data with prototype := proto }).Grounded := by
  refine hg.of_sound (hg.toSound.reparent hd hproto) fun p hp => ?_
  rw [Heap.replace, isLive_modify, hp]

theorem stores (hg : h.Grounded) {v : Value} (hv : h.holds v = true) {h' : Heap κ}
    (hs : h.Stores v h') : h'.Grounded := by
  cases hs with
  | nothing => exact hg
  | property hd hp =>
    refine hg.replace hd rfl rfl fun hlive => hlive.putProperty _ _ fun u hu => ?_
    rw [hp u hu, hv]

end Grounded

end Heap

end Ecma
