import Ecma.Proofs.Arena
import Ecma.Proofs.Index
import Ecma.Proofs.Watch
import Mathlib.Data.List.Nodup

/-!
# Own keys

The own keys of an object are exactly the keys of its own properties, each once: the indices in
ascending order, the length of dense elements that nothing hides, and the other stored keys in the
order of their insertion. That order is a matter of history. `Realm.History` follows an object
through assignments, definitions and deletions and notes for each whether the property is there
behind it; the keys with a name are then what `noteKey` makes of these notes: a new key comes last,
a key that stays keeps its place, and a key that goes leaves the others in their order.
-/

namespace Ecma

variable {κ : Type}

/-- Keys after one of them was worked on, given whether it is there now. -/
def noteKey (ks : List Text) (note : Text × Bool) : List Text :=
  if note.2 then if note.1 ∈ ks then ks else ks ++ [note.1] else ks.filter (· ≠ note.1)

theorem noteKey_of_mem {ks : List Text} {key : Text} (h : key ∈ ks) :
    noteKey ks (key, true) = ks := by
  simp [noteKey, h]

theorem noteKey_of_not_mem {ks : List Text} {key : Text} (h : key ∉ ks) :
    noteKey ks (key, false) = ks := by
  simp only [noteKey, Bool.false_eq_true, if_false, List.filter_eq_self, decide_eq_true_eq]
  exact fun a ha e => h (e ▸ ha)

theorem mem_noteKey_of_ne {ks : List Text} {key k : Text} (h : k ≠ key) (present : Bool) :
    k ∈ noteKey ks (key, present) ↔ k ∈ ks := by
  cases present with
  | false => simp [noteKey, h]
  | true =>
    simp only [noteKey, if_true]
    split
    · rfl
    · simp [h]

theorem noteKey_append {front ks : List Text} {key : Text} (h : key ∉ front) (present : Bool) :
    noteKey (front ++ ks) (key, present) = front ++ noteKey ks (key, present) := by
  cases present with
  | false =>
    have hfront := noteKey_of_not_mem h
    simp only [noteKey, Bool.false_eq_true, if_false, List.filter_append] at hfront ⊢
    rw [hfront]
  | true =>
    simp only [noteKey, if_true, List.mem_append, h, false_or]
    split
    · rfl
    · exact List.append_assoc _ _ _

/-- A key that is left out anyway makes no difference. -/
theorem filterMap_noteKey {α : Type} {f : Text → Option α} {key : Text} (h : f key = none)
    (ks : List Text) (present : Bool) :
    (noteKey ks (key, present)).filterMap f = ks.filterMap f := by
  cases present with
  | false =>
    simp only [noteKey, Bool.false_eq_true, if_false, List.filterMap_filter]
    refine List.filterMap_congr fun k _ => ?_
    by_cases hk : k = key
    · simp [hk, h]
    · simp [hk]
  | true =>
    simp only [noteKey, if_true]
    split
    · rfl
    · simp [h]

/-- Keys of a kind are noted as they are among all keys. -/
theorem filter_noteKey (p : Text → Bool) (ks : List Text) (key : Text) (present : Bool) :
    (noteKey ks (key, present)).filter p =
      if p key then noteKey (ks.filter p) (key, present) else ks.filter p := by
  cases present with
  | false =>
    have hswap : (ks.filter (· ≠ key)).filter p = (ks.filter p).filter (· ≠ key) := by
      rw [List.filter_filter, List.filter_filter]
      exact List.filter_congr fun a _ => Bool.and_comm _ _
    have hkeep : p key = false → (ks.filter p).filter (· ≠ key) = ks.filter p := by
      intro hp
      rw [List.filter_eq_self]
      intro a ha
      have hpa := (List.mem_filter.1 ha).2
      simp only [decide_eq_true_eq]
      rintro rfl
      rw [hp] at hpa
      cases hpa
    simp only [noteKey, Bool.false_eq_true, if_false, hswap]
    cases hp : p key with
    | true => rfl
    | false => exact hkeep hp
  | true =>
    simp only [noteKey, if_true]
    by_cases hmem : key ∈ ks
    · cases hp : p key <;> simp [hmem, hp]
    · cases hp : p key <;> simp [hmem, hp]

namespace Object

/-! ## The parts of the own keys -/

/-- The indices among the own keys: those of the dense elements, then the stored ones behind
them. -/
def indices (o : Object κ) : List Nat :=
  let count := (o.elements.map Array.size).getD 0
  List.range count
    ++ ((o.properties.keys.filterMap Text.arrayIndex?).filter (count ≤ ·)).mergeSort

/-- The length of dense elements that no stored property hides. -/
def lengthKeys (o : Object κ) : List Text :=
  if o.elements.isSome && !o.properties.contains lengthKey then [lengthKey] else []

/-- The stored keys that are no indices, in the order of their insertion. -/
def storedKeys (o : Object κ) : List Text :=
  o.properties.keys.filter fun k => k.arrayIndex?.isNone

theorem ownKeys_eq (o : Object κ) :
    o.ownKeys = o.indices.map Text.ofNat ++ o.lengthKeys ++ o.storedKeys := rfl

theorem arrayIndex?_lengthKey : lengthKey.arrayIndex? = none := by decide

/-- The dense elements are few enough for all of them to have an index. -/
def Indexed (o : Object κ) : Prop := ∀ elements, o.elements = some elements →
  elements.size ≤ indexLimit

variable {o o' : Object κ} {key : Text}

theorem mem_lengthKeys_iff :
    key ∈ o.lengthKeys ↔
      key = lengthKey ∧ o.elements.isSome = true ∧ o.properties.get? lengthKey = none := by
  unfold lengthKeys
  cases o.elements.isSome <;> cases hl : o.properties.get? lengthKey <;>
    simp [OrderedMap.contains, hl]

theorem mem_storedKeys_iff :
    key ∈ o.storedKeys ↔ key.arrayIndex? = none ∧ (o.properties.get? key).isSome = true := by
  simp [storedKeys, OrderedMap.mem_keys_iff, and_comm]

theorem mem_indices_iff {i : Nat} :
    i ∈ o.indices ↔ (∃ elements, o.elements = some elements ∧ i < elements.size) ∨
      i < indexLimit ∧ (o.properties.get? (.ofNat i)).isSome = true := by
  have hstored : i ∈ o.properties.keys.filterMap Text.arrayIndex? ↔
      i < indexLimit ∧ (o.properties.get? (.ofNat i)).isSome = true := by
    simp only [List.mem_filterMap, OrderedMap.mem_keys_iff, Text.arrayIndex?_eq_some_iff]
    constructor
    · rintro ⟨k, hk, hlt, rfl⟩
      exact ⟨hlt, hk⟩
    · rintro ⟨hlt, hk⟩
      exact ⟨_, hk, hlt, rfl⟩
  simp only [indices, List.mem_append, List.mem_range, List.mem_mergeSort, List.mem_filter,
    decide_eq_true_eq, hstored]
  cases o.elements with
  | none => simp
  | some elements =>
    simp only [Option.map_some, Option.getD_some, Option.some.injEq, exists_eq_left']
    constructor
    · rintro (hlt | ⟨hs, -⟩)
      · exact Or.inl hlt
      · exact Or.inr hs
    · rintro (hlt | hs)
      · exact Or.inl hlt
      · rcases Nat.lt_or_ge i elements.size with hlt | hle
        · exact Or.inl hlt
        · exact Or.inr ⟨hs, hle⟩

theorem hasOwn_iff :
    o.hasOwn key = true ↔ (o.properties.get? key).isSome = true ∨
      ∃ elements, o.elements = some elements ∧
        (key = lengthKey ∨ ∃ i, key.arrayIndex? = some i ∧ i < elements.size) := by
  rw [hasOwn, OrderedMap.contains, Bool.or_eq_true]
  refine or_congr Iff.rfl ?_
  unfold elementProperty?
  cases o.elements with
  | none => simp
  | some elements =>
    by_cases hl : key = lengthKey
    · simp [hl]
    · cases hi : key.arrayIndex? with
      | none => simp [hl]
      | some i =>
        cases hv : elements[i]? with
        | none =>
          have hle := Array.getElem?_eq_none_iff.1 hv
          simp [hl, hv]
          omega
        | some v =>
          have hlt := (Array.getElem?_eq_some_iff.1 hv).1
          simp [hl, hlt]

/-! ## Exactness -/

theorem lt_indexLimit_of_mem_indices (hn : o.Indexed) {i : Nat} (hi : i ∈ o.indices) :
    i < indexLimit := by
  rcases mem_indices_iff.1 hi with ⟨elements, he, hlt⟩ | ⟨hlt, -⟩
  · exact Nat.lt_of_lt_of_le hlt (hn elements he)
  · exact hlt

/-- The own keys are the keys of the own properties. -/
theorem mem_ownKeys_iff (hn : o.Indexed) : key ∈ o.ownKeys ↔ o.hasOwn key = true := by
  rw [ownKeys_eq, List.mem_append, List.mem_append, List.mem_map, mem_lengthKeys_iff,
    mem_storedKeys_iff, hasOwn_iff]
  cases hi : key.arrayIndex? with
  | some i =>
    obtain ⟨hlt, rfl⟩ := Text.arrayIndex?_eq_some_iff.1 hi
    have hne : Text.ofNat i ≠ lengthKey := by
      intro he
      rw [he, arrayIndex?_lengthKey] at hi
      cases hi
    have hmem : (∃ j ∈ o.indices, Text.ofNat j = Text.ofNat i) ↔ i ∈ o.indices :=
      ⟨fun ⟨j, hj, he⟩ => Text.ofNat_injective he ▸ hj, fun hj => ⟨i, hj, rfl⟩⟩
    rw [hmem, mem_indices_iff]
    simp [hne, hlt, or_comm]
  | none =>
    have hno : ¬∃ i ∈ o.indices, Text.ofNat i = key := by
      rintro ⟨i, hmem, rfl⟩
      rw [Text.arrayIndex?_ofNat (lt_indexLimit_of_mem_indices hn hmem)] at hi
      cases hi
    simp only [hno, false_or, reduceCtorEq, false_and, exists_false, or_false, true_and]
    by_cases hl : key = lengthKey
    · subst hl
      cases o.elements <;> cases o.properties.get? lengthKey <;> simp
    · simp [hl]

/-- The indices come in ascending order. -/
theorem pairwise_indices (o : Object κ) : o.indices.Pairwise (· < ·) := by
  have hnodup : (o.properties.keys.filterMap Text.arrayIndex?).Nodup := by
    refine List.Nodup.filterMap (fun a b i ha hb => ?_) o.properties.nodup
    rw [(Text.arrayIndex?_eq_some_iff.1 ha).2, (Text.arrayIndex?_eq_some_iff.1 hb).2]
  unfold indices
  dsimp only
  generalize (o.elements.map Array.size).getD 0 = count
  have hsparse : ((o.properties.keys.filterMap Text.arrayIndex?).filter
      (count ≤ ·)).mergeSort.Nodup :=
    (List.mergeSort_perm _ _).nodup_iff.2 (hnodup.sublist List.filter_sublist)
  rw [List.pairwise_append]
  refine ⟨List.pairwise_lt_range, ?_, fun i hi j hj => ?_⟩
  · have hsorted := @List.pairwise_mergeSort _ (fun a b : Nat => decide (a ≤ b))
      (fun a b c hab hbc => decide_eq_true (Nat.le_trans (of_decide_eq_true hab)
        (of_decide_eq_true hbc)))
      (fun a b => by simpa using Nat.le_total a b)
      ((o.properties.keys.filterMap Text.arrayIndex?).filter (count ≤ ·))
    refine (hsorted.and hsparse).imp fun {a b} hab => ?_
    exact Nat.lt_of_le_of_ne (of_decide_eq_true hab.1) hab.2
  · have hi := List.mem_range.1 hi
    have hj := of_decide_eq_true (List.mem_filter.1 (List.mem_mergeSort.1 hj)).2
    omega

/-- No own key is listed twice. -/
theorem nodup_ownKeys (hn : o.Indexed) : o.ownKeys.Nodup := by
  have hstored : o.storedKeys.Nodup := List.Nodup.sublist List.filter_sublist o.properties.nodup
  have hlength : o.lengthKeys.Nodup := by
    unfold lengthKeys
    split <;> simp
  have hindices : (o.indices.map Text.ofNat).Nodup :=
    (o.pairwise_indices.imp Nat.ne_of_lt).map _ fun _ _ hne he => hne (Text.ofNat_injective he)
  have hindex : ∀ k ∈ o.indices.map Text.ofNat, k.arrayIndex? ≠ none := by
    intro k hk
    obtain ⟨i, hi, rfl⟩ := List.mem_map.1 hk
    rw [Text.arrayIndex?_ofNat (lt_indexLimit_of_mem_indices hn hi)]
    simp
  rw [ownKeys_eq, List.nodup_append, List.nodup_append]
  refine ⟨⟨hindices, hlength, fun a ha b hb hab => ?_⟩, hstored, fun a ha b hb hab => ?_⟩
  · subst hab
    rw [(mem_lengthKeys_iff.1 hb).1] at ha
    exact hindex _ ha arrayIndex?_lengthKey
  · subst hab
    obtain ⟨hnone, hget⟩ := mem_storedKeys_iff.1 hb
    rcases List.mem_append.1 ha with ha | ha
    · exact hindex _ ha hnone
    · obtain ⟨rfl, -, habsent⟩ := mem_lengthKeys_iff.1 ha
      simp [habsent] at hget

/-! ## Keys with a name -/

/-- Whether a key is neither an index nor the length of dense elements. -/
def isNamed (o : Object κ) (key : Text) : Bool :=
  key.arrayIndex?.isNone && !(o.elements.isSome && key == lengthKey)

theorem isNamed_iff :
    o.isNamed key = true ↔
      key.arrayIndex? = none ∧ (o.elements.isSome = true → key ≠ lengthKey) := by
  rw [isNamed]
  cases o.elements.isSome <;> simp

/-- A property under a key with a name is a stored one. -/
theorem hasOwn_of_isNamed (hk : o.isNamed key = true) :
    o.hasOwn key = o.properties.contains key := by
  obtain ⟨hi, hl⟩ := isNamed_iff.1 hk
  rw [Bool.eq_iff_iff, hasOwn_iff, OrderedMap.contains]
  refine or_iff_left ?_
  rintro ⟨elements, he, rfl | ⟨i, hi', -⟩⟩
  · exact hl (by simp [he]) rfl
  · rw [hi] at hi'
    cases hi'

/-- The keys with a name among the own keys are those among the stored ones. -/
theorem filter_ownKeys (hn : o.Indexed) :
    o.ownKeys.filter o.isNamed = o.properties.keys.filter o.isNamed := by
  have hindices : (o.indices.map Text.ofNat).filter o.isNamed = [] := by
    refine List.filter_eq_nil_iff.2 fun k hk => ?_
    obtain ⟨i, hi, rfl⟩ := List.mem_map.1 hk
    simp [isNamed, Text.arrayIndex?_ofNat (lt_indexLimit_of_mem_indices hn hi)]
  have hlength : o.lengthKeys.filter o.isNamed = [] := by
    refine List.filter_eq_nil_iff.2 fun k hk => ?_
    obtain ⟨rfl, he, -⟩ := mem_lengthKeys_iff.1 hk
    simp [isNamed, he]
  have hstored : o.storedKeys.filter o.isNamed = o.properties.keys.filter o.isNamed := by
    rw [storedKeys, List.filter_filter]
    refine List.filter_congr fun k _ => ?_
    cases hi : k.arrayIndex? <;> simp [isNamed, hi]
  rw [ownKeys_eq, List.filter_append, List.filter_append, hindices, hlength, hstored]
  rfl

/-! ## Work on one key -/

/-- What an assignment, a definition or a deletion under a key makes of an object: the stored
property under the key may come, change or go, and dense elements may change, but not if the key has
a name. -/
structure Revised (o : Object κ) (key : Text) (o' : Object κ) : Prop where
  keys : o'.properties.keys = noteKey o.properties.keys (key, o'.properties.contains key)
  dense : o'.elements.isSome = o.elements.isSome
  elements : o.isNamed key = true → o'.elements = o.elements

namespace Revised

theorem refl (o : Object κ) (key : Text) : Revised o key o := by
  refine ⟨?_, rfl, fun _ => rfl⟩
  cases hc : o.properties.contains key with
  | true => exact (noteKey_of_mem ((OrderedMap.mem_keys_iff _ _).2 hc)).symm
  | false =>
    refine (noteKey_of_not_mem fun hm => ?_).symm
    rw [OrderedMap.contains, (OrderedMap.mem_keys_iff _ _).1 hm] at hc
    cases hc

theorem putProperty (o : Object κ) (key : Text) (p : Property) :
    Revised o key (o.putProperty key p) := by
  have hc : (o.properties.insert key p).contains key = true := by
    simp [OrderedMap.contains, OrderedMap.get?_insert]
  refine ⟨?_, rfl, fun _ => rfl⟩
  show (o.properties.insert key p).keys = noteKey _ (key, (o.properties.insert key p).contains key)
  rw [OrderedMap.keys_insert, hc]
  rfl

theorem eraseProperty (o : Object κ) (key : Text) :
    Revised o key { o with properties := o.properties.erase key } := by
  have hc : (o.properties.erase key).contains key = false := by
    simp [OrderedMap.contains, OrderedMap.get?_erase]
  refine ⟨?_, rfl, fun _ => rfl⟩
  show (o.properties.erase key).keys = noteKey _ (key, (o.properties.erase key).contains key)
  rw [OrderedMap.keys_erase, hc]
  rfl

theorem withElements (h : o.elements.isSome = true) (hk : o.isNamed key = false)
    (elements : Array Value) : Revised o key { o with elements := some elements } := by
  refine ⟨(refl o key).keys, h.symm, fun hk' => ?_⟩
  rw [hk] at hk'
  cases hk'

end Revised

/-- Where no property is stored, assigning under a key with a name adds a property or does
nothing. -/
theorem assignAbsent_of_isNamed (hk : o.isNamed key = true) (v : Value) :
    o.assignAbsent key v =
      .ok (if o.extensible then .object (o.putProperty key (.plain v)) else .ignored) := by
  obtain ⟨hi, hl⟩ := isNamed_iff.1 hk
  unfold assignAbsent
  cases he : o.elements with
  | none => rfl
  | some elements => simp [hl (by simp [he]), hi]

theorem defineElement?_of_isNamed (hk : o.isNamed key = true) (d : Descriptor) :
    o.defineElement? key d = none := by
  obtain ⟨hi, hl⟩ := isNamed_iff.1 hk
  unfold defineElement?
  cases he : o.elements with
  | none => rfl
  | some elements => simp [hl (by simp [he]), hi]

theorem revised_of_assign {v : Value} (h : o.assign key v = .ok (.object o')) :
    o.Revised key o' := by
  rcases assign_eq_object h with ⟨p, -, rfl⟩ | ⟨hsome, elements, rfl, -⟩
  · exact .putProperty o key p
  · cases hk : o.isNamed key with
    | false => exact .withElements hsome hk elements
    | true =>
      -- the length and the indices are the only keys through which elements change
      unfold assign at h
      rw [assignAbsent_of_isNamed hk] at h
      split at h
      · cases h
      · cases h
      · split at h
        · rw [← Stored.object.inj (Except.ok.inj h)]
          exact .putProperty o key _
        · cases h
      · split at h
        · rw [← Stored.object.inj (Except.ok.inj h)]
          exact .putProperty o key _
        · cases h

theorem revised_of_define {d : Descriptor} (h : o.define key d = .ok o') : o.Revised key o' := by
  rcases define_eq_ok h with rfl | ⟨hsome, elements, rfl, -⟩
  · exact .putProperty o key _
  · cases hk : o.isNamed key with
    | false => exact .withElements hsome hk elements
    | true =>
      unfold define at h
      rw [defineElement?_of_isNamed hk] at h
      rw [← Except.ok.inj h]
      exact .putProperty o key _

theorem revised_of_delete (h : o.delete key = .property o' ∨ o.delete key = .element o') :
    o.Revised key o' := by
  rcases h with h | h
  · rw [delete_eq_property h]
    exact .eraseProperty o key
  · rcases delete_eq_element h with rfl | ⟨hsome, elements, rfl, -⟩
    · exact .refl o' key
    · cases hk : o.isNamed key with
      | false => exact .withElements hsome hk elements
      | true =>
        obtain ⟨hi, hl⟩ := isNamed_iff.1 hk
        unfold delete at h
        split at h
        · split at h <;> cases h
        · split at h
          · rw [← Deleted.element.inj h]
            exact .refl o key
          · rw [if_neg (hl hsome), hi] at h
            rw [← Deleted.element.inj h]
            exact .refl o key

namespace Revised

theorem isNamed_eq (h : o.Revised key o') (k : Text) : o'.isNamed k = o.isNamed k := by
  rw [isNamed, isNamed, h.dense]

/-- Work on a key with a name is noted among all own keys. -/
theorem ownKeys_eq (h : o.Revised key o') (hk : o.isNamed key = true) (hn : o.Indexed) :
    o'.ownKeys = noteKey o.ownKeys (key, o'.hasOwn key) := by
  obtain ⟨hi, hl⟩ := isNamed_iff.1 hk
  have helements := h.elements hk
  have hown := hasOwn_of_isNamed ((h.isNamed_eq key).trans hk)
  have hindices : o'.indices = o.indices := by
    rw [indices, indices, h.keys, filterMap_noteKey hi, helements]
  have hlength : o'.lengthKeys = o.lengthKeys := by
    rw [lengthKeys, lengthKeys, helements]
    cases he : o.elements.isSome with
    | false => rfl
    | true =>
      have hcontains : o'.properties.contains lengthKey = o.properties.contains lengthKey := by
        rw [Bool.eq_iff_iff, OrderedMap.contains, OrderedMap.contains, ← OrderedMap.mem_keys_iff,
          ← OrderedMap.mem_keys_iff, h.keys, mem_noteKey_of_ne (hl he).symm]
      rw [hcontains]
  have hstored : o'.storedKeys = noteKey o.storedKeys (key, o'.hasOwn key) := by
    rw [storedKeys, h.keys, filter_noteKey, hown, hi]
    rfl
  have hfront : key ∉ o.indices.map Text.ofNat ++ o.lengthKeys := by
    intro hmem
    rcases List.mem_append.1 hmem with hmem | hmem
    · obtain ⟨i, hi', rfl⟩ := List.mem_map.1 hmem
      rw [Text.arrayIndex?_ofNat (lt_indexLimit_of_mem_indices hn hi')] at hi
      cases hi
    · obtain ⟨rfl, he, -⟩ := mem_lengthKeys_iff.1 hmem
      exact hl he rfl
  rw [Object.ownKeys_eq, Object.ownKeys_eq, hindices, hlength, hstored, noteKey_append hfront]

/-- Of the keys with a name, only the one that is worked on comes or goes. -/
theorem filter_keys_eq (h : o.Revised key o') :
    o'.properties.keys.filter o'.isNamed =
      if o.isNamed key then noteKey (o.properties.keys.filter o.isNamed) (key, o'.hasOwn key)
      else o.properties.keys.filter o.isNamed := by
  rw [funext h.isNamed_eq, h.keys, filter_noteKey]
  cases hk : o.isNamed key with
  | false => rfl
  | true => rw [hasOwn_of_isNamed ((h.isNamed_eq key).trans hk)]

end Revised

end Object

/-! ## Histories -/

namespace Realm

/-- One assignment, definition or deletion under a key of an object. Where it fails, is ignored or
refused, nothing changes; nor where an assignment calls a setter, whose own operations come next. -/
inductive Revises (r : Realm κ) (o : ObjectId) (key : Text) : Realm κ → Prop where
  | assigned {v : Value} {r' : Realm κ} (h : r.assign o key v = .ok (.stored r')) :
      Revises r o key r'
  | defined {d : Descriptor} {r' : Realm κ} (h : r.define o key d = .ok r') : Revises r o key r'
  | deleted {b : Bool} {r' : Realm κ} (h : r.delete o key = .ok (b, r')) : Revises r o key r'
  | unchanged : Revises r o key r

/-- A sequence of operations, with a note of each that works on the object: its key, and whether
the object has a property there behind it. -/
inductive History (o : ObjectId) (r : Realm κ) : List (Text × Bool) → Realm κ → Prop where
  | start : History o r [] r
  | here {notes : List (Text × Bool)} {r' r'' : Realm κ} {key : Text} {present : Bool}
      (h : History o r notes r') (hr : r'.Revises o key r'')
      (hp : r''.hasOwnProperty o key = .ok present) : History o r (notes ++ [(key, present)]) r''
  | elsewhere {notes : List (Text × Bool)} {r' r'' : Realm κ} {p : ObjectId} {key : Text}
      (h : History o r notes r') (hne : p ≠ o) (hr : r'.Revises p key r'') :
      History o r notes r''

variable {r r' : Realm κ} {o p : ObjectId} {key : Text} {data : Object κ}

theorem Revises.replaces (h : r.Revises o key r') :
    r'.heap = r.heap ∨ ∃ data data', r.heap.get? o = some data ∧ data.Revised key data' ∧
      r'.heap = r.heap.replace o data' := by
  cases h with
  | assigned h =>
    obtain ⟨data, data', hd, ha, rfl⟩ := assign_eq_stored h
    exact Or.inr ⟨data, data', hd, Object.revised_of_assign ha, heap_sync _ _ _⟩
  | defined h =>
    obtain ⟨data, data', hd, hdef, rfl⟩ := define_eq_ok h
    exact Or.inr ⟨data, data', hd, Object.revised_of_define hdef, heap_sync _ _ _⟩
  | deleted h =>
    rcases delete_eq_ok h with rfl | ⟨data, data', hd, ⟨hdel, rfl⟩ | ⟨hdel, rfl⟩⟩
    · exact Or.inl rfl
    · exact Or.inr ⟨data, data', hd, Object.revised_of_delete (Or.inl hdel), heap_unlink _ _ _⟩
    · exact Or.inr ⟨data, data', hd, Object.revised_of_delete (Or.inr hdel), rfl⟩
  | unchanged => exact Or.inl rfl

/-- The object that is worked on is revised. -/
theorem Revises.revised (h : r.Revises o key r') (hd : r.heap.get? o = some data) :
    ∃ data', r'.heap.get? o = some data' ∧ data.Revised key data' := by
  rcases h.replaces with heap | ⟨before, data', hbefore, hrev, heap⟩
  · exact ⟨data, by rw [heap, hd], .refl data key⟩
  · obtain rfl := Option.some.inj (hd.symm.trans hbefore)
    exact ⟨data', by rw [heap, Heap.get?_replace, if_pos rfl, hd]; rfl, hrev⟩

/-- The other objects stay as they are. -/
theorem Revises.get?_of_ne (h : r.Revises p key r') (hne : p ≠ o) :
    r'.heap.get? o = r.heap.get? o := by
  rcases h.replaces with heap | ⟨before, data', hbefore, hrev, heap⟩
  · rw [heap]
  · rw [heap, Heap.get?_replace, if_neg hne.symm]

/-- The keys with a name after any number of operations. -/
theorem History.filter_keys_eq {notes : List (Text × Bool)} (h : History o r notes r')
    (hd : r.heap.get? o = some data) :
    ∃ data', r'.heap.get? o = some data' ∧ data'.isNamed = data.isNamed ∧
      data'.properties.keys.filter data.isNamed =
        (notes.filter fun note => data.isNamed note.1).foldl noteKey
          (data.properties.keys.filter data.isNamed) := by
  induction h with
  | start => exact ⟨data, hd, rfl, rfl⟩
  | @here notes r₁ r₂ key present _ hr hp ih =>
    obtain ⟨data₁, hd₁, hnamed, hkeys⟩ := ih
    obtain ⟨data₂, hd₂, hrev⟩ := hr.revised hd₁
    have hnamed' : data₂.isNamed = data.isNamed := (funext hrev.isNamed_eq).trans hnamed
    have hpresent : data₂.hasOwn key = present := by
      rw [hasOwnProperty, object_eq_ok.2 hd₂] at hp
      exact Except.ok.inj hp
    have hstep := hrev.filter_keys_eq
    rw [hnamed', hnamed, hkeys, hpresent] at hstep
    refine ⟨data₂, hd₂, hnamed', ?_⟩
    rw [hstep, List.filter_append, List.foldl_append]
    cases hk : data.isNamed key <;> simp [hk]
  | elsewhere _ hne hr ih =>
    obtain ⟨data₁, hd₁, hnamed, hkeys⟩ := ih
    exact ⟨data₁, by rw [hr.get?_of_ne hne, hd₁], hnamed, hkeys⟩

theorem ownKeys_eq_ok (hd : r.heap.get? o = some data) : r.ownKeys o = .ok data.ownKeys := by
  rw [ownKeys, object_eq_ok.2 hd]
  rfl

theorem hasOwnProperty_eq_ok (hd : r.heap.get? o = some data) (key : Text) :
    r.hasOwnProperty o key = .ok (data.hasOwn key) := by
  rw [hasOwnProperty, object_eq_ok.2 hd]
  rfl

/-- The own keys of an object are exactly the keys of its own properties, each once: first the
indices in ascending order, then the length of dense elements unless it is stored, then the other
stored keys in their order. Of these, the ones with a name are in the order of their creation: work
on one of them puts it last if it is new, leaves all in place if it stays, and removes it without a
change of order if it goes; and so it is noted over any number of operations. -/
theorem ownKeys_exact {r : Realm κ} {o : ObjectId} {data : Object κ}
    (hd : r.heap.get? o = some data) (hn : data.Indexed) :
    ∃ keys, r.ownKeys o = .ok keys ∧ keys.Nodup ∧
      (∀ k, (k ∈ keys ↔ r.hasOwnProperty o k = .ok true) ∧
        (k ∈ keys ↔ ∃ p, r.ownProperty? o k = .ok (some p))) ∧
      (∃ indices : List Nat, indices.Pairwise (· < ·) ∧ (∀ i ∈ indices, i < indexLimit) ∧
        keys = indices.map Text.ofNat
          ++ (if data.elements.isSome && !data.properties.contains lengthKey then [lengthKey]
            else [])
          ++ data.properties.keys.filter fun k => k.arrayIndex?.isNone) ∧
      (∀ key r', r.Revises o key r' → data.isNamed key = true →
        ∃ present, r'.hasOwnProperty o key = .ok present ∧
          r'.ownKeys o = .ok (noteKey keys (key, present))) ∧
      ∀ notes r' data', History o r notes r' → r'.heap.get? o = some data' → data'.Indexed →
        ∃ keys', r'.ownKeys o = .ok keys' ∧ keys'.filter data.isNamed =
          (notes.filter fun note => data.isNamed note.1).foldl noteKey
            (keys.filter data.isNamed) := by
  have hown : ∀ k, r.hasOwnProperty o k = .ok true ↔ data.hasOwn k = true := fun k => by
    rw [hasOwnProperty_eq_ok hd, Except.ok.injEq]
  refine ⟨data.ownKeys, ownKeys_eq_ok hd, Object.nodup_ownKeys hn, fun k => ⟨?_, ?_⟩,
    ⟨data.indices, data.pairwise_indices, ?_, data.ownKeys_eq⟩, ?_, ?_⟩
  · rw [hown, Object.mem_ownKeys_iff hn]
  · rw [Object.mem_ownKeys_iff hn, Object.hasOwn_eq, Option.isSome_iff_exists, ownProperty?,
      object_eq_ok.2 hd]
    exact exists_congr fun p => Except.ok.injEq .. ▸ Iff.rfl
  · exact fun i hi => Object.lt_indexLimit_of_mem_indices hn hi
  · intro key r' hr hk
    obtain ⟨data', hd', hrev⟩ := hr.revised hd
    refine ⟨data'.hasOwn key, hasOwnProperty_eq_ok hd' key, ?_⟩
    rw [ownKeys_eq_ok hd', hrev.ownKeys_eq hk hn]
  · intro notes r' data' h hd' hn'
    obtain ⟨data'', hd'', hnamed, hkeys⟩ := h.filter_keys_eq hd
    obtain rfl := Option.some.inj (hd'.symm.trans hd'')
    refine ⟨data'.ownKeys, ownKeys_eq_ok hd', ?_⟩
    rw [← hnamed, Object.filter_ownKeys hn', hnamed, Object.filter_ownKeys hn, hkeys]

section Requests

variable {σ : Type} (e : Engine κ σ) (w : World κ σ)

theorem revises_define (o : ObjectId) (key : Text) (d : Descriptor) :
    w.realm.Revises o key (e.perform (.define o key d) w).2.realm := by
  show w.realm.Revises o key (Action.changeOrFail _ w).2.realm
  unfold Action.changeOrFail
  split
  · rename_i r heq
    obtain ⟨r', h, hr⟩ := Except.map_eq_ok heq
    obtain rfl := (Prod.mk.inj hr).2
    exact .defined h
  · exact .unchanged

theorem revises_delete (o : ObjectId) (key : Text) :
    w.realm.Revises o key (e.perform (.delete o key) w).2.realm := by
  show w.realm.Revises o key (Action.changeOrFail _ w).2.realm
  unfold Action.changeOrFail
  split
  · rename_i b r h
    exact .deleted h
  · exact .unchanged

/-- An assignment that calls no setter. -/
theorem revises_set {o : ObjectId} {key : Text} {v : Value}
    (hs : ∀ f receiver, w.realm.assign o key v ≠ .ok (.setter f receiver)) :
    w.realm.Revises o key (e.perform (.set o key v) w).2.realm := by
  show w.realm.Revises o key (Action.bind (Action.read _) _ w).2.realm
  unfold Action.bind Action.read
  dsimp only
  cases ha : w.realm.assign o key v with
  | error f => exact .unchanged
  | ok a =>
    cases a with
    | stored r => exact .assigned ha
    | ignored => exact .unchanged
    | setter f receiver => exact absurd ha (hs f receiver)

end Requests

/-- A key of an array that is deleted and made again comes behind the one that stayed, which a new
definition leaves in its place. -/
theorem ownKeys_exact_recreated :
    let a := Text.ofString "a"
    let b := Text.ofString "b"
    let r : Realm Unit := [.createArray #[.null], .set ⟨10⟩ b .null, .set ⟨10⟩ a .null].foldl
      answer (fresh {})
    let r₁ := r.answer (.delete ⟨10⟩ b)
    let r₂ := r₁.answer (.set ⟨10⟩ b .null)
    let r₃ := r₂.answer (.define ⟨10⟩ a { enumerable := some false })
    ∃ data, r.heap.get? ⟨10⟩ = some data ∧ data.Indexed ∧
      History ⟨10⟩ r [(b, false), (b, true), (a, true)] r₃ ∧
      ∃ keys, r₃.ownKeys ⟨10⟩ = .ok keys ∧ keys.filter data.isNamed = [a, b] := by
  intro a b r r₁ r₂ r₃
  have hr₁ : r.Revises ⟨10⟩ b r₁ := revises_delete (Library.silent.engine 1) ⟨r, ()⟩ ⟨10⟩ b
  have hr₂ : r₁.Revises ⟨10⟩ b r₂ := by
    refine revises_set (Library.silent.engine 1) ⟨r₁, ()⟩ fun f receiver h => ?_
    have hcalls : (match r₁.assign ⟨10⟩ b .null with
      | .ok (.setter _ _) => true
      | _ => false) = false := by decide +kernel
    rw [show r₁.assign ⟨10⟩ b .null = _ from h] at hcalls
    cases hcalls
  have hr₃ : r₂.Revises ⟨10⟩ a r₃ := revises_define (Library.silent.engine 1) ⟨r₂, ()⟩ ⟨10⟩ a _
  have h : History ⟨10⟩ r [(b, false), (b, true), (a, true)] r₃ :=
    .here (.here (.here .start hr₁ (by decide +kernel)) hr₂ (by decide +kernel)) hr₃
      (by decide +kernel)
  have hview : (r.heap.get? ⟨10⟩).map (fun o => (o.elements, o.properties.keys)) =
      some (some #[.null], [b, a]) := by decide +kernel
  have hview₃ : (r₃.heap.get? ⟨10⟩).map (·.elements) = some (some #[.null]) := by decide +kernel
  obtain ⟨data, hd, hdata⟩ := Option.map_eq_some_iff.1 hview
  obtain ⟨data₃, hd₃, helements₃⟩ := Option.map_eq_some_iff.1 hview₃
  obtain ⟨helements, hkeys⟩ := Prod.mk.inj hdata
  have hn : data.Indexed := fun elements he => by
    obtain rfl := Option.some.inj (helements.symm.trans he)
    decide
  have hn₃ : data₃.Indexed := fun elements he => by
    obtain rfl := Option.some.inj (helements₃.symm.trans he)
    decide
  obtain ⟨keys, hok, -, -, -, -, hhistory⟩ := ownKeys_exact hd hn
  obtain ⟨keys₃, hok₃, hfilter⟩ := hhistory _ r₃ data₃ h hd₃ hn₃
  obtain rfl := Except.ok.inj (hok.symm.trans (ownKeys_eq_ok hd))
  refine ⟨data, hd, hn, h, keys₃, hok₃, ?_⟩
  have hnamed : ∀ k, data.isNamed k = (k.arrayIndex?.isNone && k != lengthKey) := fun k => by
    rw [Object.isNamed, helements]
    rfl
  rw [hfilter, Object.filter_ownKeys hn, hkeys, funext hnamed]
  decide +kernel

end Realm

end Ecma
