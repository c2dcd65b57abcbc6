import Ecma.Proofs.ElementEdit
import Ecma.Proofs.ReadOnly

/-!
# Keys that a closed object gains

An object that is not extensible ignores assignments under new keys, whether they would store a
property or make its dense elements grow up to an index. A new length is not ignored, and where it
is greater than the old one, it fills the elements up: the object gains their indices. These are the
only keys that assignment adds to it (`Engine.closed_object_gains`).
-/

namespace Ecma

variable {κ σ : Type}

namespace Object

/-- The number of dense elements. -/
def count (o : Object κ) : Nat := (o.elements.map Array.size).getD 0

/-- The number of elements that an assignment asks for, if it sets their length. -/
def lengthTo? (o : Object κ) (key : Text) (v : Value) : Option Nat := do
  let elements ← o.elements
  if key = lengthKey && !o.properties.contains key then
    (arrayLength v elements.size).toOption
  else none

/-- The assignment fills the elements up past an index. -/
def Lengthens (o : Object κ) (key : Text) (v : Value) (k : Text) : Prop :=
  ∃ n i, o.lengthTo? key v = some n ∧ o.count ≤ i ∧ i < n ∧ k = .ofNat i

/-- The object behind an assignment that calls no setter. -/
def assigned (o : Object κ) (key : Text) (v : Value) : Object κ :=
  match o.assign key v with
  | .ok (.object o') => o'
  | _ => o

variable {o o' : Object κ} {key k : Text} {v : Value}

/-! ## The same keys are stored -/

/-- Both objects store properties under the same keys, and both or neither have dense elements. -/
structure SameStored (o o' : Object κ) : Prop where
  isSome_get? : ∀ k, (o'.properties.get? k).isSome = (o.properties.get? k).isSome
  isSome_elements : o'.elements.isSome = o.elements.isSome

theorem lt_count_iff {i : Nat} :
    i < o.count ↔ ∃ elements, o.elements = some elements ∧ i < elements.size := by
  unfold count
  cases o.elements <;> simp

namespace SameStored

theorem refl (o : Object κ) : o.SameStored o := ⟨fun _ => rfl, rfl⟩

/-- A further own key is the index of a further element. -/
theorem mem_ownKeys_iff (h : o.SameStored o') (hk : k ∉ o.ownKeys) :
    k ∈ o'.ownKeys ↔ ∃ i, o.count ≤ i ∧ i < o'.count ∧ k = .ofNat i := by
  have hlength : k ∈ o'.lengthKeys ↔ k ∈ o.lengthKeys := by
    rw [mem_lengthKeys_iff, mem_lengthKeys_iff, h.isSome_elements,
      ← Option.isNone_iff_eq_none, ← Option.isNone_iff_eq_none, ← Option.not_isSome,
      ← Option.not_isSome, h.isSome_get?]
  have hstored : k ∈ o'.storedKeys ↔ k ∈ o.storedKeys := by
    rw [mem_storedKeys_iff, mem_storedKeys_iff, h.isSome_get?]
  have hindex : ∀ i, i ∈ o'.indices ↔
      i < o'.count ∨ i < indexLimit ∧ (o.properties.get? (.ofNat i)).isSome = true := by
    intro i
    rw [mem_indices_iff, lt_count_iff, h.isSome_get?]
  rw [ownKeys_eq, List.mem_append, List.mem_append, not_or, not_or] at hk
  rw [ownKeys_eq, List.mem_append, List.mem_append, hlength, hstored, or_iff_left hk.2,
    or_iff_left hk.1.2, List.mem_map]
  constructor
  · rintro ⟨i, hi, rfl⟩
    have hnew : i ∉ o.indices := fun hi => hk.1.1 (List.mem_map_of_mem hi)
    rw [mem_indices_iff, ← lt_count_iff, not_or, Nat.not_lt] at hnew
    exact ⟨i, hnew.1, ((hindex i).1 hi).resolve_right hnew.2, rfl⟩
  · rintro ⟨i, -, hi, rfl⟩
    exact ⟨i, (hindex i).2 (Or.inl hi), rfl⟩

/-- So is the key of a further own property. -/
theorem hasOwn_iff (h : o.SameStored o') (hk : o.hasOwn k = false) :
    o'.hasOwn k = true ↔ ∃ i, o.count ≤ i ∧ i < o'.count ∧ k.arrayIndex? = some i := by
  rw [← Bool.not_eq_true, Object.hasOwn_iff, not_or] at hk
  obtain ⟨hnone, hk⟩ := hk
  rw [Object.hasOwn_iff, h.isSome_get?, or_iff_right hnone]
  constructor
  · rintro ⟨elements', he', hkey⟩
    have hsome : o.elements.isSome = true := by rw [← h.isSome_elements, he', Option.isSome_some]
    obtain ⟨elements, he⟩ := Option.isSome_iff_exists.1 hsome
    rcases hkey with rfl | ⟨i, hi, hlt⟩
    · exact absurd ⟨elements, he, Or.inl rfl⟩ hk
    · refine ⟨i, Nat.le_of_not_lt fun hlt' => hk ?_, lt_count_iff.2 ⟨elements', he', hlt⟩, hi⟩
      obtain ⟨es, hes, hlt'⟩ := lt_count_iff.1 hlt'
      exact ⟨es, hes, Or.inr ⟨i, hi, hlt'⟩⟩
  · rintro ⟨i, -, hlt, hi⟩
    obtain ⟨elements', he', hlt⟩ := lt_count_iff.1 hlt
    exact ⟨elements', he', Or.inr ⟨i, hi, hlt⟩⟩

end SameStored

/-! ## Assignments to a closed object -/

theorem lengthTo?_eq_some_iff {n : Nat} :
    o.lengthTo? key v = some n ↔ key = lengthKey ∧ o.properties.get? key = none ∧
      ∃ elements, o.elements = some elements ∧ arrayLength v elements.size = .ok n := by
  have hok : ∀ x : Except Fault Nat, x.toOption = some n ↔ x = .ok n := by
    rintro (f | m)
    · exact ⟨nofun, nofun⟩
    · simp [Except.toOption]
  unfold lengthTo?
  cases o.elements with
  | none => simp
  | some elements => simp [OrderedMap.contains, hok, and_assoc]

/-- A length that is accepted is set. -/
theorem assign_of_lengthTo? {n : Nat} (h : o.lengthTo? key v = some n) :
    ∃ o', o.assign key v = .ok (.object o') := by
  obtain ⟨rfl, hnone, elements, he, hn⟩ := lengthTo?_eq_some_iff.1 h
  exact ⟨_, assign_lengthKey hnone he hn⟩

/-- Nothing new is stored in a closed object, and the number of its elements changes through their
length only. -/
theorem sameStored_of_assign (hx : o.extensible = false) (h : o.assign key v = .ok (.object o')) :
    o.SameStored o' ∧ o'.count = (o.lengthTo? key v).getD o.count := by
  rcases assign_edits h with ⟨w, e, c, hold, rfl⟩ | ⟨hnone, elements, elements', he, hedit, rfl⟩
  · have hcontains : (o.properties.get? key).isSome = true := by
      refine hold.resolve_right fun ht => ?_
      rw [hx] at ht
      cases ht
    have hno : o.lengthTo? key v = none := by
      refine Option.eq_none_iff_forall_ne_some.2 fun n hn => ?_
      rw [(lengthTo?_eq_some_iff.1 hn).2.1] at hcontains
      cases hcontains
    refine ⟨⟨fun k => ?_, rfl⟩, by rw [hno]; rfl⟩
    rw [putProperty, OrderedMap.get?_insert]
    split
    · rename_i hk
      rw [hk, hcontains]
      rfl
    · rfl
  · refine ⟨⟨fun _ => rfl, by rw [he]; rfl⟩, ?_⟩
    have hcount : o.count = elements.size := by simp [count, he]
    show elements'.size = _
    cases hedit with
    | write hi hlt =>
      have hno : o.lengthTo? key v = none := by
        refine Option.eq_none_iff_forall_ne_some.2 fun n hn => ?_
        rw [(lengthTo?_eq_some_iff.1 hn).1, arrayIndex?_lengthKey] at hi
        cases hi
      rw [hno, Array.size_setIfInBounds, Option.getD_none, hcount]
    | grow ht =>
      rw [hx] at ht
      cases ht
    | resize hk hn =>
      have hto := lengthTo?_eq_some_iff.2 ⟨hk, hnone, elements, he, hn⟩
      rw [hto, size_resize, Option.getD_some]

theorem sameStored_assigned (hx : o.extensible = false) (key : Text) (v : Value) :
    o.SameStored (o.assigned key v) ∧
      (o.assigned key v).count = (o.lengthTo? key v).getD o.count := by
  unfold assigned
  split
  · rename_i o' h
    exact sameStored_of_assign hx h
  · rename_i hno
    refine ⟨.refl o, ?_⟩
    cases hto : o.lengthTo? key v with
    | none => rfl
    | some n =>
      obtain ⟨o', h⟩ := assign_of_lengthTo? hto
      exact absurd h (hno o')

end Object

namespace Engine

variable {w : World κ σ} {o : ObjectId} {data : Object κ} {key : Text} {v : Value}

theorem get?_set (e : Engine κ σ) (hd : w.realm.heap.get? o = some data)
    (hset : w.realm.callsSetter (.set o key v) = false) :
    (e.set o key v w).2.realm.heap.get? o = some (data.assigned key v) := by
  unfold Object.assigned
  split
  · rename_i data' ha
    obtain ⟨w', hw', hd', -⟩ := set_of_object (e := e) hd ha
    rw [hw', hd']
  · rename_i hno
    rcases e.set_cases hset with hw | ⟨r', ha, -⟩
    · rw [hw, hd]
    · obtain ⟨before, data', hbefore, hdata, -⟩ := Realm.assign_eq_stored ha
      obtain rfl := Option.some.inj (hd.symm.trans hbefore)
      exact absurd hdata (hno data')

/-- The own keys that an object which is not extensible gains by an assignment without a setter are
exactly the indices of elements that a greater length fills up. So it is with the own properties, as
far as the indices are in range. -/
theorem closed_object_gains (e : Engine κ σ) (hd : w.realm.heap.get? o = some data)
    (hx : data.extensible = false) (hset : w.realm.callsSetter (.set o key v) = false) :
    ∃ keys keys', w.realm.ownKeys o = .ok keys ∧
      (e.perform (.set o key v) w).2.realm.ownKeys o = .ok keys' ∧
      (∀ k, k ∉ keys → (k ∈ keys' ↔ data.Lengthens key v k)) ∧
      ∀ k, w.realm.hasOwnProperty o k = .ok false →
        ((e.perform (.set o key v) w).2.realm.hasOwnProperty o k = .ok true ↔
          data.Lengthens key v k ∧ k.arrayIndex?.isSome = true) := by
  have hd' : (e.perform (.set o key v) w).2.realm.heap.get? o = some (data.assigned key v) :=
    e.get?_set hd hset
  obtain ⟨hstored, hcount⟩ := data.sameStored_assigned hx key v
  -- without a new length, no index is between the old and the new number of elements
  have hlengthens : ∀ i, data.count ≤ i ∧ i < (data.assigned key v).count ↔
      ∃ n, data.lengthTo? key v = some n ∧ data.count ≤ i ∧ i < n := by
    intro i
    rw [hcount]
    cases data.lengthTo? key v with
    | none => simp
    | some n => simp
  refine ⟨_, _, Realm.ownKeys_eq_ok hd, Realm.ownKeys_eq_ok hd', fun k hk => ?_, fun k hk => ?_⟩
  · rw [hstored.mem_ownKeys_iff hk]
    constructor
    · rintro ⟨i, hle, hlt, rfl⟩
      obtain ⟨n, hn, hle, hlt⟩ := (hlengthens i).1 ⟨hle, hlt⟩
      exact ⟨n, i, hn, hle, hlt, rfl⟩
    · rintro ⟨n, i, hn, hle, hlt, rfl⟩
      obtain ⟨hle, hlt⟩ := (hlengthens i).2 ⟨n, hn, hle, hlt⟩
      exact ⟨i, hle, hlt, rfl⟩
  · rw [Realm.hasOwnProperty_eq_ok hd] at hk
    rw [Realm.hasOwnProperty_eq_ok hd', Except.ok.injEq, hstored.hasOwn_iff (Except.ok.inj hk)]
    constructor
    · rintro ⟨i, hle, hlt, hi⟩
      obtain ⟨n, hn, hle, hlt⟩ := (hlengthens i).1 ⟨hle, hlt⟩
      exact ⟨⟨n, i, hn, hle, hlt, (Text.arrayIndex?_eq_some_iff.1 hi).2⟩, by rw [hi]; rfl⟩
    · rintro ⟨⟨n, i, hn, hle, hlt, rfl⟩, hindex⟩
      obtain ⟨hle, hlt⟩ := (hlengthens i).2 ⟨n, hn, hle, hlt⟩
      obtain ⟨j, hj⟩ := Option.isSome_iff_exists.1 hindex
      have hij : i = j := Text.ofNat_injective (Text.arrayIndex?_eq_some_iff.1 hj).2
      exact ⟨i, hle, hlt, hij ▸ hj⟩

/-- A closed array of one element ignores an assignment right behind it. -/
theorem closed_object_gains_nothing :
    let r : Realm Unit := ((Realm.fresh {}).answer (.createArray #[.null])).answer
      (.preventExtensions ⟨10⟩)
    let key := Text.ofString "1"
    let e : Engine Unit Unit := Library.silent.engine 1
    ∃ data, r.heap.get? ⟨10⟩ = some data ∧ data.extensible = false ∧
      ∃ keys', (e.perform (.set ⟨10⟩ key .null) ⟨r, ()⟩).2.realm.ownKeys ⟨10⟩ = .ok keys' ∧
        ∀ k ∈ keys', k ∈ [Text.ofString "0", lengthKey] := by
  intro r key e
  have hview : (r.heap.get? ⟨10⟩).map (fun data => (data.extensible, data.lengthTo? key .null)) =
      some (false, none) := by decide +kernel
  have hkeys : r.ownKeys ⟨10⟩ = .ok [Text.ofString "0", lengthKey] := by decide +kernel
  have hset : r.callsSetter (.set ⟨10⟩ key .null) = false := by decide +kernel
  obtain ⟨data, hd, hdata⟩ := Option.map_eq_some_iff.1 hview
  obtain ⟨hx, hno⟩ := Prod.mk.inj hdata
  obtain ⟨keys, keys', hok, hok', hgains, -⟩ := closed_object_gains (w := ⟨r, ()⟩) e hd hx hset
  obtain rfl := Except.ok.inj (hkeys.symm.trans hok)
  refine ⟨data, hd, hx, keys', hok', fun k hk => ?_⟩
  by_contra hnew
  obtain ⟨n, i, hn, -⟩ := (hgains k hnew).1 hk
  rw [hno] at hn
  cases hn

/-- A closed empty array gains two indices by a length of two. -/
theorem closed_array_lengthened :
    let r : Realm Unit := ((Realm.fresh {}).answer (.createArray #[])).answer
      (.preventExtensions ⟨10⟩)
    let e : Engine Unit Unit := Library.silent.engine 1
    let result := e.perform (.set ⟨10⟩ lengthKey (.ofNat 2)) ⟨r, ()⟩
    Realm.Reached (fun _ => True) {} r ∧ r.isExtensible ⟨10⟩ = .ok false ∧
      r.callsSetter (.set ⟨10⟩ lengthKey (.ofNat 2)) = false ∧
      r.ownKeys ⟨10⟩ = .ok [lengthKey] ∧
      result.2.realm.ownKeys ⟨10⟩ = .ok [.ofString "0", .ofString "1", lengthKey] := by
  intro r e result
  refine ⟨Realm.Reached.fresh.requests [.createArray #[], .preventExtensions ⟨10⟩]
    fun _ _ => trivial, ?_, ?_, ?_, ?_⟩
  all_goals decide +kernel

end Engine

end Ecma
