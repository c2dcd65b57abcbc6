import Ecma.Proofs.Turn

/-!
# Deleted properties

Deleting takes a stored property away, or, where none is stored, writes undefined over an element.
An element that a stored property hides is not written over: deleting the property brings it back to
light. That is the only exception (`Object.Removes`). Where nothing is hidden, no value but
undefined can be seen under the key again before it is handed over anew: not through elements that
grow past the key, nor through definitions that complete what they find (`Object.Free`).
-/

namespace Ecma

open Relation

variable {κ : Type}

namespace Object

/-! ## One deletion -/

/-- There is no own property under the key, or the key is the index of an element and shows
undefined. -/
def Gone (o : Object κ) (key : Text) : Prop :=
  o.own? key = none ∨
    ∃ elements i w e c, o.elements = some elements ∧ key.arrayIndex? = some i ∧
      i < elements.size ∧ o.own? key = some (.data .undefined w e c)

/-- A stored property hides a length, or an element other than undefined. -/
def hides (o : Object κ) (key : Text) : Bool :=
  o.properties.contains key && (o.elementProperty? key).any (· ≠ .plain .undefined)

/-- What a deletion under a key does to an object. -/
structure Removes (o : Object κ) (key : Text) (o' : Object κ) : Prop where
  stored : o'.properties.get? key = none
  gone_iff : o'.Gone key ↔ o.hides key = false
  revealed : o.hides key = true → o'.own? key = o.elementProperty? key
  others : ∀ k, k ≠ key → o'.own? k = o.own? k

variable {o o' : Object κ} {key : Text}

/-- What shows undefined as a plain property is an element. -/
theorem gone_of_elementProperty? (hstored : o.properties.get? key = none)
    (h : ∀ p, o.elementProperty? key = some p → p = .plain .undefined) : o.Gone key := by
  have hown : o.own? key = o.elementProperty? key := by rw [own?, hstored, Option.none_or]
  cases hp : o.elementProperty? key with
  | none => exact Or.inl (hown.trans hp)
  | some p =>
    have hundefined := h p hp
    have hlength : key = lengthKey → o.elements = none := by
      rintro rfl
      rw [elementProperty?_lengthKey] at hp
      cases he : o.elements with
      | none => rfl
      | some elements =>
        rw [he, hundefined] at hp
        cases hp
    obtain ⟨elements, i, he, hi, hlt, -⟩ := elementProperty?_eq_some hlength hp
    refine Or.inr ⟨elements, i, true, true, true, he, hi, hlt, ?_⟩
    rw [hown, hp, hundefined]
    rfl

theorem elementProperty?_of_gone (hstored : o.properties.get? key = none) (h : o.Gone key)
    {p : Property} (hp : o.elementProperty? key = some p) : p = .plain .undefined := by
  have hown : o.own? key = some p := by rw [own?, hstored, Option.none_or, hp]
  rcases h with hnone | ⟨elements, i, w, e, c, he, hi, hlt, hundefined⟩
  · rw [hnone] at hown
    cases hown
  · rw [elementProperty?_of_arrayIndex? hi he] at hp
    obtain ⟨u, -, rfl⟩ := Option.map_eq_some_iff.1 hp
    rw [hundefined] at hown
    cases hown
    rfl

/-- Taking a stored property away shows what the elements have beneath it. -/
theorem removes_of_delete_property (h : o.delete key = .property o') : o.Removes key o' := by
  have hcontains : o.properties.contains key = true := by
    unfold delete at h
    split at h
    · rename_i p hp
      rw [OrderedMap.contains, hp]
      rfl
    · split at h
      · cases h
      · split at h
        · cases h
        · split at h <;> cases h
  obtain rfl := delete_eq_property h
  have hstored : (o.properties.erase key).get? key = none := by
    rw [OrderedMap.get?_erase, if_pos rfl]
  have helement : ∀ k, ({ o with properties := o.properties.erase key } :
      Object κ).elementProperty? k = o.elementProperty? k := fun _ => rfl
  have hhides : o.hides key = false ↔
      ∀ p, o.elementProperty? key = some p → p = .plain .undefined := by
    rw [hides, hcontains, Bool.true_and, Option.any_eq_false]
    simp
  refine ⟨hstored, ?_, fun _ => ?_, fun k hk => ?_⟩
  · rw [hhides]
    refine ⟨fun hg p hp => elementProperty?_of_gone hstored hg hp, fun hp => ?_⟩
    exact gone_of_elementProperty? hstored hp
  · rw [own?, hstored, Option.none_or, helement]
  · rw [own?, own?, OrderedMap.get?_erase, if_neg hk, helement]

/-- Where nothing is stored, nothing is hidden, and an element is undefined now. -/
theorem removes_of_delete_element (h : o.delete key = .element o') : o.Removes key o' := by
  obtain ⟨hstored, hcases⟩ := delete_edits h
  have hhides : o.hides key = false := by simp [hides, OrderedMap.contains, hstored]
  suffices hgone : o'.properties = o.properties ∧ o'.Gone key ∧
      ∀ k, k ≠ key → o'.own? k = o.own? k by
    obtain ⟨hproperties, hgone, hothers⟩ := hgone
    refine ⟨by rw [hproperties, hstored], iff_of_true hgone hhides, fun htrue => ?_, hothers⟩
    rw [hhides] at htrue
    cases htrue
  rcases hcases with ⟨rfl, hnone⟩ | ⟨-, elements, elements', he, hedit, rfl⟩
  · exact ⟨rfl, Or.inl (own?_eq_none_iff.2 ⟨hstored, hnone⟩), fun _ _ => rfl⟩
  · cases hedit with
    | @write i hi hlt =>
      have hown := own?_setElement he hi hlt hstored .undefined
      refine ⟨rfl, Or.inr ⟨_, i, true, true, true, rfl, hi, ?_, ?_⟩, fun k hk => ?_⟩
      · rwa [Array.size_setIfInBounds]
      · rw [hown, if_pos rfl]
        rfl
      · rw [hown, if_neg hk]
    | grow hx => cases hx
    | resize hk hn => cases hn

/-! ## Values that are not to be seen -/

/-- The object has the value neither in the property that is stored under the key nor in the element
at the key, and shows no length there. -/
structure Free (o : Object κ) (key : Text) (u : Value) : Prop where
  stored : ∀ p, o.properties.get? key = some p → u ∉ p.references
  element : ∀ elements i, o.elements = some elements → key.arrayIndex? = some i →
    elements[i]? ≠ some u
  length : key = lengthKey → o.elements = none

namespace Free

variable {u : Value} {k : Text}

theorem of_gone (hstored : o.properties.get? key = none) (h : o.Gone key) (hu : u ≠ .undefined) :
    o.Free key u := by
  refine ⟨fun p hp => ?_, fun elements i he hi hget => hu ?_, ?_⟩
  · rw [hstored] at hp
    cases hp
  · have hp : o.elementProperty? key = some (.plain u) := by
      rw [elementProperty?_of_arrayIndex? hi he, hget]
      rfl
    cases elementProperty?_of_gone hstored h hp
    rfl
  · rintro rfl
    cases he : o.elements with
    | none => rfl
    | some elements =>
      have hp : o.elementProperty? lengthKey =
          some (.data (.ofNat elements.size) true false false) := by
        rw [elementProperty?_lengthKey, he]
        rfl
      cases elementProperty?_of_gone hstored h hp

theorem own? (h : o.Free key u) {p : Property} (hp : o.own? key = some p) : u ∉ p.references := by
  rw [Object.own?, Option.or_eq_some_iff] at hp
  rcases hp with hp | ⟨-, hp⟩
  · exact h.stored p hp
  · obtain ⟨elements, i, he, hi, hlt, rfl⟩ := elementProperty?_eq_some h.length hp
    intro hu
    rw [List.mem_singleton.1 hu] at h
    exact h.element elements i he hi (Array.getElem?_eq_getElem hlt)

theorem putProperty (h : o.Free key u) {p : Property} (hp : k = key → u ∉ p.references) :
    (o.putProperty k p).Free key u := by
  refine ⟨fun q hq => ?_, h.element, h.length⟩
  rw [Object.putProperty, OrderedMap.get?_insert] at hq
  split at hq
  · rename_i hk
    rw [← Option.some.inj hq]
    exact hp hk.symm
  · exact h.stored q hq

theorem erase (h : o.Free key u) :
    ({ o with properties := o.properties.erase k } : Object κ).Free key u := by
  refine ⟨fun p hp => ?_, h.element, h.length⟩
  rw [OrderedMap.get?_erase] at hp
  split at hp
  · cases hp
  · exact h.stored p hp

/-- An edit fills gaps with undefined only, and writes its own value at its own key. -/
theorem edits (h : o.Free key u) (hu : u ≠ .undefined) {extensible : Bool} {v : Value}
    (he : o.Edits extensible k v o') (hv : k = key → u ≠ v) : o'.Free key u := by
  obtain ⟨elements, elements', hes, hedit, rfl⟩ := he.edit
  refine ⟨h.stored, fun es i hsome hi hget => ?_, fun hk => ?_⟩
  · obtain rfl := Option.some.inj hsome
    rcases hedit.getElem?_cases hget with hold | hundefined | ⟨hk, huv⟩
    · exact h.element elements i hes hi hold
    · exact hu hundefined
    · exact hv (arrayIndex?_inj hi hk) huv
  · rw [h.length hk] at hes
    cases hes

end Free

end Object

/-! ## All that follows -/

namespace Realm

variable {r r' r'' : Realm κ} {o : ObjectId} {key : Text} {u : Value} {data data' : Object κ}

/-- A value that an object does not have under a key stays away unless it is handed over. -/
theorem Turn.free {allowed : Request κ → Prop} (h : Turn allowed r o data r' data')
    (hfree : data.Free key u) (hu : u ≠ .undefined) (hs : ¬r.Supplies o key u r') :
    data'.Free key u := by
  cases h with
  | take h =>
    refine ⟨fun p hp hmem => ?_, ?_, ?_⟩
    · rcases h.references key p u hp hmem with hsupplied | ⟨q, hq, hq'⟩
      · exact hs hsupplied
      · exact hfree.stored q hq hq'
    · rw [h.elements]
      exact hfree.element
    · rw [h.elements]
      exact hfree.length
  | @assign k v h hdata =>
    have hv : k = key → u ≠ v := by
      rintro rfl rfl
      exact hs (.assign h)
    rcases Object.assign_edits hdata with ⟨w, e, c, -, rfl⟩ | hedits
    · refine hfree.putProperty fun hk hmem => ?_
      exact hv hk (List.mem_singleton.1 hmem)
    · exact hfree.edits hu hedits hv
  | @define k d ha h hdata =>
    have hd : k = key → u ∉ d.values := by
      rintro rfl hmem
      exact hs (.define hmem h)
    rcases Object.define_edits hdata with rfl | rfl | ⟨v, hv, hedits⟩
    · refine hfree.putProperty fun hk hmem => ?_
      subst hk
      rcases Descriptor.mem_references_complete hmem with hgiven | ⟨p, hp, hold⟩ | hundefined
      · exact hd rfl hgiven
      · exact hfree.own? hp hold
      · exact hu hundefined
    · exact hfree
    · refine hfree.edits hu hedits fun hk huv => hd hk ?_
      simp [Descriptor.values, hv, huv]
  | delete ha hdata =>
    rcases hdata with hdata | hdata
    · rw [Object.delete_eq_property hdata]
      exact hfree.erase
    · rcases (Object.delete_edits hdata).2 with ⟨rfl, -⟩ | hedits
      · exact hfree
      · exact hfree.edits hu hedits fun _ => hu
  | @writeElements elements ha h hdata =>
    subst hdata
    refine ⟨hfree.stored, fun es i hes hi hget => ?_, fun hk => ?_⟩
    · exact hs (.writeElements (Or.inr ⟨i, es, hi, hes, hget⟩) h)
    · exact absurd (.writeElements (Or.inl hk) h) hs

/-- A step at which the object lives, and which does not hand it the value under the key. -/
structure Withholds (o : ObjectId) (key : Text) (u : Value) (r r' : Realm κ) : Prop where
  step : Step (fun _ => True) r r'
  live : r.heap.isLive o = true
  not_supplied : ¬r.Supplies o key u r'

theorem free_of_withholds (h : ReflTransGen (Withholds o key u) r r') (hw : r.heap.WellFormed)
    (hfree : ∀ data, r.heap.get? o = some data → data.Free key u) (hu : u ≠ .undefined) :
    r'.heap.WellFormed ∧ ∀ data, r'.heap.get? o = some data → data.Free key u := by
  induction h with
  | refl => exact ⟨hw, hfree⟩
  | tail _ hs ih =>
    obtain ⟨hw, hfree⟩ := ih
    refine ⟨hw.moves hs.step.moves, fun data' hd' => ?_⟩
    rcases hs.step.fate hw hd' with ⟨data, hd, hturn⟩ | ⟨hnone, -⟩
    · exact hturn.free (hfree data hd) hu hs.not_supplied
    · have hlive := hs.live
      rw [Heap.isLive, hnone] at hlive
      cases hlive

/-- A deletion that succeeds. -/
theorem removes_of_delete (h : r.delete o key = .ok (true, r')) :
    ∃ data data', r.heap.get? o = some data ∧ r'.heap.get? o = some data' ∧
      data.Removes key data' := by
  obtain ⟨data, hd, h⟩ := Except.bind_eq_ok h
  have hd := object_eq_ok.1 hd
  split at h
  · cases h
  · rename_i data' hdel
    rw [← (Prod.mk.inj (Except.ok.inj h)).2, heap_unlink]
    exact ⟨data, data', hd, get?_replaceObject_self hd _, Object.removes_of_delete_property hdel⟩
  · rename_i data' hdel
    rw [← (Prod.mk.inj (Except.ok.inj h)).2]
    exact ⟨data, data', hd, get?_replaceObject_self hd _, Object.removes_of_delete_element hdel⟩

/-- A deletion that succeeds leaves no own property under the key, or an undefined element, exactly
if the stored property did not hide a length or an element other than undefined; what it hid can be
seen otherwise. All other own properties stay as they are. Where nothing was hidden, no value but
undefined is seen under the key again as long as the object lives and is not handed the value
there. -/
theorem deleted_value_gone {options : Options} (h : Reached (fun _ => True) options r)
    (hdelete : r.delete o key = .ok (true, r')) :
    ∃ data data', r.heap.get? o = some data ∧ r'.heap.get? o = some data' ∧
      (data'.Gone key ↔ data.hides key = false) ∧
      (data.hides key = true → r'.ownProperty? o key = .ok (data.elementProperty? key)) ∧
      (∀ k, k ≠ key → r'.ownProperty? o k = r.ownProperty? o k) ∧
      (data.hides key = false → ∀ u, u ≠ .undefined → ∀ r'' p,
        ReflTransGen (Withholds o key u) r' r'' → r''.ownProperty? o key = .ok (some p) →
        u ∉ p.references) := by
  have hstep : Step (fun _ => True) r r' := .delete trivial hdelete
  have hw : r'.heap.WellFormed := (heap_wellFormed_of_reached h).moves hstep.moves
  obtain ⟨data, data', hd, hd', hremoves⟩ := removes_of_delete hdelete
  refine ⟨data, data', hd, hd', hremoves.gone_iff, fun hh => ?_, fun k hk => ?_, ?_⟩
  · rw [ownProperty?_of_get? hd', hremoves.revealed hh]
  · rw [ownProperty?_of_get? hd', ownProperty?_of_get? hd, hremoves.others k hk]
  · intro hh u hu r'' p hrun hp
    have hfree : data'.Free key u := .of_gone hremoves.stored (hremoves.gone_iff.2 hh) hu
    obtain ⟨-, hfree⟩ := free_of_withholds hrun hw (fun d hd => by
      rwa [← Option.some.inj (hd'.symm.trans hd)]) hu
    obtain ⟨data'', hd'', hown⟩ := Except.map_eq_ok hp
    exact (hfree data'' (object_eq_ok.1 hd'')).own? hown

/-- An element is deleted, and the one behind it stays. -/
theorem deleted_value_gone_element :
    let key := Text.ofString "0"
    let r : Realm Unit := (fresh {}).answer (.createArray #[.boolean true, .null])
    Reached (fun _ => True) {} r ∧
      r.ownProperty? ⟨10⟩ key = .ok (some (.plain (.boolean true))) ∧
      ∃ r', r.delete ⟨10⟩ key = .ok (true, r') ∧
        r'.ownProperty? ⟨10⟩ (.ofString "1") = .ok (some (.plain .null)) ∧
        ∀ r'' p, ReflTransGen (Withholds ⟨10⟩ key (.boolean true)) r' r'' →
          r''.ownProperty? ⟨10⟩ key = .ok (some p) → .boolean true ∉ p.references := by
  intro key r
  have h : Reached (fun _ => True) {} r :=
    Reached.fresh.requests [.createArray #[.boolean true, .null]] fun _ _ => trivial
  have hbefore : r.ownProperty? ⟨10⟩ key = .ok (some (.plain (.boolean true))) := by
    decide +kernel
  have hbehind : r.ownProperty? ⟨10⟩ (.ofString "1") = .ok (some (.plain .null)) := by
    decide +kernel
  have hview : (r.heap.get? ⟨10⟩).map (·.hides key) = some false := by decide +kernel
  have hanswer : (r.delete ⟨10⟩ key).map Prod.fst = .ok true := by decide +kernel
  obtain ⟨⟨b, r'⟩, hdelete, rfl⟩ := Except.map_eq_ok hanswer
  obtain ⟨data, data', hd, -, -, -, hothers, hgone⟩ := deleted_value_gone h hdelete
  rw [hd] at hview
  refine ⟨h, hbefore, r', hdelete, ?_, hgone (Option.some.inj hview) _ nofun⟩
  rw [hothers _ (by decide), hbehind]

/-- An element is defined anew so that enumeration does not show it, which stores a property over
it. Deleting the property succeeds, and the element that was there before is back. -/
theorem element_back_behind_deleted :
    let key := Text.ofString "0"
    let r : Realm Unit := (fresh {}).answer (.createArray #[.boolean true])
    let hidden := r.answer (.define ⟨10⟩ key { value := some .null, enumerable := some false })
    Reached (fun _ => True) {} hidden ∧
      r.ownProperty? ⟨10⟩ key = .ok (some (.plain (.boolean true))) ∧
      hidden.ownProperty? ⟨10⟩ key = .ok (some (.data .null true false true)) ∧
      ∃ r', hidden.delete ⟨10⟩ key = .ok (true, r') ∧
        r'.ownProperty? ⟨10⟩ key = .ok (some (.plain (.boolean true))) := by
  intro key r hidden
  have h : Reached (fun _ => True) {} hidden :=
    Reached.fresh.requests [.createArray #[.boolean true],
      .define ⟨10⟩ key { value := some .null, enumerable := some false }] fun _ _ => trivial
  have hanswer : (hidden.delete ⟨10⟩ key).map (fun (b, r') => (b, r'.ownProperty? ⟨10⟩ key)) =
      .ok (true, .ok (some (.plain (.boolean true)))) := by decide +kernel
  obtain ⟨⟨b, r'⟩, hdelete, hpair⟩ := Except.map_eq_ok hanswer
  obtain ⟨rfl, hback⟩ := Prod.mk.inj hpair
  refine ⟨h, ?_, ?_, r', hdelete, hback⟩
  · decide +kernel
  · decide +kernel

end Realm

end Ecma
