import Ecma.Proofs.OwnProperty

/-!
# What was assigned is read back

Assigning to a property either stores the value or does nothing, and the own property decides which:
it may be written, or there is none and the object is extensible (`Object.accepts`). A stored value
goes to a stored property, to an element, or behind the elements, which then grow up to it; all that
own properties show of that is `Object.Writes`. Whether the object inherits a property of that key
makes no difference.
-/

namespace Ecma

variable {κ σ : Type}

/-! ## Elements that grow -/

theorem size_resize (elements : Array Value) (n : Nat) : (resize elements n).size = n := by
  simp only [resize, Array.take_eq_extract, Array.size_append, Array.size_extract,
    Array.size_replicate]
  omega

/-- Elements that grow up to an index hold undefined between the old ones and the new one. -/
theorem getElem?_grown {elements : Array Value} {i : Nat} (hle : elements.size ≤ i) (v : Value)
    (j : Nat) :
    ((resize elements i).push v)[j]? =
      if j = i then some v else if j < i then some (elements[j]?.getD .undefined) else none := by
  have hall : elements.take i = elements := by simp [hle]
  rw [Array.getElem?_push, size_resize]
  split
  · rfl
  · rw [resize, hall, Array.getElem?_append, Array.getElem?_replicate]
    by_cases hj : j < elements.size
    · have hji : j < i := by omega
      simp [hj, hji]
    · have hshift : j - elements.size < i - elements.size ↔ j < i := by omega
      simp [hj, hshift]

/-- What an assignment did to an object, with another prototype. -/
def Stored.withPrototype (proto : Option ObjectId) : Stored κ → Stored κ
  | .object o => .object { o with prototype := proto }
  | .ignored => .ignored
  | .setter f => .setter f

namespace Object

variable {o : Object κ} {key k : Text} {elements : Array Value} {i : Nat}

/-! ## What an assignment does -/

/-- Whether an assignment stores its value: over a property that may be written, or as a new
property of an extensible object. -/
def accepts (o : Object κ) (key : Text) : Bool :=
  match o.own? key with
  | some (.data _ w _ _) => w
  | some (.accessor ..) => false
  | none => o.extensible

/-- The index that the dense elements grow up to when a value is assigned to it: there is no
property, and the index is not too far behind the elements. -/
def growsTo? (o : Object κ) (key : Text) : Option Nat := do
  let elements ← o.elements
  let i ← key.arrayIndex?
  if (o.own? key).isNone ∧ i ≤ elements.size + maxDenseGap then some i else none

/-- What the other keys show when the dense elements have grown up to an index: the length is one
more, unless a stored property hides it, and indices before it that showed nothing show
undefined. -/
def grownOwn? (o : Object κ) (i : Nat) (k : Text) : Option Property :=
  if k = lengthKey then
    (o.properties.get? k).or (some (.data (.ofNat (i + 1)) true false false))
  else if k.arrayIndex?.any (· < i) then (o.own? k).or (some (.plain .undefined))
  else o.own? k

/-- The object is another one after a value has been stored under a key. -/
structure Writes (o : Object κ) (key : Text) (v : Value) (o' : Object κ) : Prop where
  /-- The key shows the value, with the attributes that were there, or as a plain property. -/
  own_key : o'.own? key = some (((o.own? key).map (·.withValue v)).getD (.plain v))
  /-- The other keys show what they showed, unless the elements grow. -/
  own_other : ∀ k, k ≠ key → o'.own? k = (o.growsTo? key).elim (o.own? k) (o.grownOwn? · k)
  /-- There are as many elements as before, unless they grow. -/
  count : o'.elements.map Array.size =
    (o.growsTo? key).elim (o.elements.map Array.size) fun i => some (i + 1)
  /-- Nothing but properties and elements is different. -/
  rest_eq : { o' with properties := o.properties, elements := o.elements } = o

theorem growsTo?_of_own? {p : Property} (h : o.own? key = some p) : o.growsTo? key = none := by
  unfold growsTo?
  cases o.elements <;> cases key.arrayIndex? <;> simp [h]

theorem growsTo?_eq_some_iff :
    o.growsTo? key = some i ↔ ∃ elements, o.elements = some elements ∧
      key.arrayIndex? = some i ∧ o.own? key = none ∧ i ≤ elements.size + maxDenseGap := by
  unfold growsTo?
  cases o.elements with
  | none => simp
  | some elements =>
    cases key.arrayIndex? with
    | none => simp
    | some j =>
      simp only [Option.bind_eq_bind, Option.bind_some, Option.isNone_iff_eq_none,
        Option.ite_none_right_eq_some, Option.some.injEq, exists_eq_left']
      constructor
      · rintro ⟨⟨hown, hle⟩, rfl⟩
        exact ⟨rfl, hown, hle⟩
      · rintro ⟨rfl, hown, hle⟩
        exact ⟨⟨hown, hle⟩, rfl⟩

theorem own?_eq_none_iff :
    o.own? key = none ↔ o.properties.get? key = none ∧ o.elementProperty? key = none := by
  rw [own?, Option.or_eq_none_iff]

/-- An index that shows nothing is behind the elements. -/
theorem size_le_of_own? (he : o.elements = some elements) (hi : key.arrayIndex? = some i)
    (hown : o.own? key = none) : elements.size ≤ i := by
  rw [own?_eq_none_iff, elementProperty?_of_arrayIndex? hi he] at hown
  simpa using hown.2

/-- A value is stored as a property. -/
theorem writes_putProperty {p : Property} {v : Value}
    (hp : p = ((o.own? key).map (·.withValue v)).getD (.plain v)) (hgrows : o.growsTo? key = none) :
    o.Writes key v (o.putProperty key p) := by
  refine ⟨?_, fun k hk => ?_, ?_, rfl⟩
  · rw [own?_putProperty, if_pos rfl, hp]
  · rw [own?_putProperty, if_neg hk, hgrows]
    rfl
  · rw [hgrows]
    rfl

/-- A value is stored as an element. -/
theorem writes_setElement (he : o.elements = some elements) (hi : key.arrayIndex? = some i)
    (hlt : i < elements.size) (hstored : o.properties.get? key = none) (v : Value) :
    o.Writes key v { o with elements := some (elements.setIfInBounds i v) } := by
  have hown : o.own? key = some (.plain elements[i]) := by
    rw [own?, hstored, elementProperty?_of_arrayIndex? hi he]
    simp [hlt]
  refine ⟨?_, fun k hk => ?_, ?_, rfl⟩
  · rw [own?_setElement he hi hlt hstored, if_pos rfl, hown]
    rfl
  · rw [own?_setElement he hi hlt hstored, if_neg hk, growsTo?_of_own? hown]
    rfl
  · rw [growsTo?_of_own? hown, he]
    simp

/-- What a key shows when the dense elements have grown up to an index that is another key. -/
theorem own?_grown (he : o.elements = some elements) (hle : elements.size ≤ i)
    (hi : key.arrayIndex? = some i) (v : Value) (hk : k ≠ key) :
    ({ o with elements := some ((resize elements i).push v) } : Object κ).own? k =
      o.grownOwn? i k := by
  unfold grownOwn?
  by_cases hname : k = lengthKey
  · subst hname
    rw [if_pos rfl, own?, elementProperty?_lengthKey]
    simp [size_resize]
  · rw [if_neg hname, own?, own?]
    cases hj : k.arrayIndex? with
    | none =>
      rw [elementProperty?_of_name hj hname, elementProperty?_of_name hj hname]
      rfl
    | some j =>
      have hij : j ≠ i := by
        rintro rfl
        exact hk (arrayIndex?_inj hi hj)
      rw [elementProperty?_of_arrayIndex? hj rfl, elementProperty?_of_arrayIndex? hj he,
        getElem?_grown hle, if_neg hij]
      by_cases hlt : j < i
      · cases o.properties.get? k <;> cases elements[j]? <;> simp [hlt]
      · have hnone : elements[j]? = none := Array.getElem?_eq_none (by omega)
        simp [hlt, hnone]

/-- A value is stored behind the elements. -/
theorem writes_grown (he : o.elements = some elements) (hgrows : o.growsTo? key = some i)
    (v : Value) : o.Writes key v { o with elements := some ((resize elements i).push v) } := by
  obtain ⟨-, -, hi, hown, -⟩ := growsTo?_eq_some_iff.1 hgrows
  have hle := size_le_of_own? he hi hown
  have hstored := (own?_eq_none_iff.1 hown).1
  refine ⟨?_, fun k hk => ?_, ?_, rfl⟩
  · rw [own?, hstored, elementProperty?_of_arrayIndex? hi rfl, getElem?_grown hle, if_pos rfl, hown]
    rfl
  · rw [own?_grown he hle hi v hk, hgrows]
    rfl
  · rw [hgrows]
    simp [size_resize]

/-! ## Assignments -/

theorem ne_lengthKey (hlength : key = lengthKey → o.elements = none)
    (he : o.elements = some elements) : key ≠ lengthKey := by
  intro hname
  rw [hlength hname] at he
  cases he

/-- A key other than the length that the elements show is the index of one of them. -/
theorem elementProperty?_eq_some {p : Property} (hlength : key = lengthKey → o.elements = none)
    (h : o.elementProperty? key = some p) :
    ∃ elements i, o.elements = some elements ∧ key.arrayIndex? = some i ∧
      ∃ hlt : i < elements.size, p = .plain elements[i] := by
  have hname : key ≠ lengthKey := by
    rintro rfl
    rw [elementProperty?_lengthKey, hlength rfl] at h
    cases h
  cases hi : key.arrayIndex? with
  | none =>
    rw [elementProperty?_of_name hi hname] at h
    cases h
  | some i =>
    cases he : o.elements with
    | none =>
      rw [elementProperty?, he] at h
      cases h
    | some elements =>
      rw [elementProperty?_of_arrayIndex? hi he, Option.map_eq_some_iff] at h
      obtain ⟨u, hu, rfl⟩ := h
      obtain ⟨hlt, rfl⟩ := Array.getElem?_eq_some_iff.1 hu
      exact ⟨elements, i, rfl, rfl, hlt, rfl⟩

/-- The object with a value under a key that showed nothing. -/
def added (o : Object κ) (key : Text) (v : Value) : Object κ :=
  match o.growsTo? key with
  | some i => { o with elements := o.elements.map fun elements => (resize elements i).push v }
  | none => o.putProperty key (.plain v)

theorem assign_of_absent (hlength : key = lengthKey → o.elements = none)
    (hown : o.own? key = none) (v : Value) :
    o.assign key v = .ok (if o.extensible then .object (o.added key v) else .ignored) := by
  have hstored := (own?_eq_none_iff.1 hown).1
  rw [assign, hstored]
  dsimp only
  rw [assignAbsent, added, growsTo?]
  cases he : o.elements with
  | none => rfl
  | some elements =>
    dsimp only
    rw [if_neg (ne_lengthKey hlength he)]
    cases hi : key.arrayIndex? with
    | none => rfl
    | some i =>
      have hle := size_le_of_own? he hi hown
      have hgap : i - elements.size ≤ maxDenseGap ↔ i ≤ elements.size + maxDenseGap := by omega
      simp only [Option.bind_eq_bind, Option.bind_some, hown, Option.isNone_none, true_and, hgap,
        if_neg (Nat.not_lt.2 hle)]
      by_cases hnear : i ≤ elements.size + maxDenseGap
      · simp only [if_pos hnear]
        cases o.extensible <;> rfl
      · simp only [if_neg hnear]
        cases o.extensible <;> rfl

theorem writes_added (hown : o.own? key = none) (v : Value) : o.Writes key v (o.added key v) := by
  unfold added
  cases hgrows : o.growsTo? key with
  | none =>
    refine writes_putProperty ?_ hgrows
    rw [hown]
    rfl
  | some i =>
    obtain ⟨elements, he, -⟩ := growsTo?_eq_some_iff.1 hgrows
    simp only [he]
    exact writes_grown he hgrows v

/-- Over a data property, a value is stored if the property may be written. -/
theorem assign_of_data {u : Value} {w e c : Bool} (hlength : key = lengthKey → o.elements = none)
    (hown : o.own? key = some (.data u w e c)) (v : Value) :
    w = false ∧ o.assign key v = .ok .ignored ∨
      w = true ∧ ∃ o', o.assign key v = .ok (.object o') ∧ o.Writes key v o' := by
  cases hstored : o.properties.get? key with
  | some p =>
    obtain rfl : p = .data u w e c := by
      rw [own?, hstored] at hown
      exact Option.some.inj hown
    rw [assign, hstored]
    cases w with
    | false => exact Or.inl ⟨rfl, rfl⟩
    | true =>
      refine Or.inr ⟨rfl, _, rfl, writes_putProperty ?_ (growsTo?_of_own? hown)⟩
      rw [hown]
      rfl
  | none =>
    rw [own?, hstored, Option.none_or] at hown
    obtain ⟨elements, i, he, hi, hlt, hplain⟩ := elementProperty?_eq_some hlength hown
    refine Or.inr ⟨(Property.data.inj hplain).2.1, _, ?_, writes_setElement he hi hlt hstored v⟩
    rw [assign, hstored]
    dsimp only
    rw [assignAbsent, he]
    dsimp only
    rw [if_neg (ne_lengthKey hlength he), hi]
    dsimp only
    rw [if_pos hlt]

/-- An assignment that calls no setter stores its value or does nothing. -/
theorem assign_cases (haccessor : (o.own? key).any Property.isAccessor = false)
    (hlength : key = lengthKey → o.elements = none) (v : Value) :
    o.accepts key = false ∧ o.assign key v = .ok .ignored ∨
      o.accepts key = true ∧ ∃ o', o.assign key v = .ok (.object o') ∧ o.Writes key v o' := by
  unfold accepts
  rcases hown : o.own? key with _ | ⟨u, w, e, c⟩ | ⟨g, s, e, c⟩
  · dsimp only
    rw [assign_of_absent hlength hown]
    cases o.extensible with
    | false => exact Or.inl ⟨rfl, rfl⟩
    | true => exact Or.inr ⟨rfl, _, rfl, writes_added hown v⟩
  · exact assign_of_data hlength hown v
  · rw [hown] at haccessor
    cases haccessor

/-- What an assignment does is not up to the prototype. -/
theorem assign_prototype (o : Object κ) (proto : Option ObjectId) (key : Text) (v : Value) :
    ({ o with prototype := proto } : Object κ).assign key v =
      (o.assign key v).map (Stored.withPrototype proto) := by
  unfold assign
  dsimp only
  cases o.properties.get? key with
  | some p =>
    rcases p with ⟨u, w, e, c⟩ | ⟨g, s, e, c⟩
    · cases w <;> rfl
    · cases s <;> rfl
  | none =>
    have hadd : (if o.extensible then
          .object (({ o with prototype := proto } : Object κ).putProperty key (.plain v))
        else .ignored) =
        Stored.withPrototype proto
          (if o.extensible then .object (o.putProperty key (.plain v)) else .ignored) := by
      split <;> rfl
    unfold assignAbsent
    dsimp only
    rw [hadd]
    cases o.elements with
    | none => rfl
    | some elements =>
      dsimp only
      split
      · cases arrayLength v elements.size <;> rfl
      · cases key.arrayIndex? with
        | none => rfl
        | some i =>
          dsimp only
          split_ifs <;> rfl

end Object

/-! ## Assignments in a world -/

namespace Engine

variable {e : Engine κ σ} {w : World κ σ} {o : ObjectId} {data data' : Object κ} {key : Text}
  {v : Value}

theorem set_of_ignored (hd : w.realm.heap.get? o = some data)
    (ha : data.assign key v = .ok .ignored) : e.set o key v w = (.done (), w) := by
  simp only [set, bind, Action.bind, Action.read, Realm.assign_of_ignored hd ha]
  rfl

theorem set_of_object (hd : w.realm.heap.get? o = some data)
    (ha : data.assign key v = .ok (.object data')) :
    ∃ w', e.set o key v w = (.done (), w') ∧ w'.realm.heap.get? o = some data' ∧
      ∀ p, p ≠ o → w'.realm.heap.get? p = w.realm.heap.get? p := by
  refine ⟨{ w with realm := (w.realm.replaceObject o data').sync data' key }, ?_, ?_, ?_⟩
  · simp only [set, bind, Action.bind, Action.read, Realm.assign_of_object hd ha]
    rfl
  · rw [Realm.heap_sync, Realm.get?_replaceObject_self hd]
  · intro p hp
    rw [Realm.heap_sync, Realm.get?_replaceObject_of_ne hp]

/-- Assigning to a property of an object succeeds, if no setter is to be called and the key is not
the length of dense elements. If the own property may be written, or there is none and the object is
extensible, the value is read back, and all that is different otherwise is that elements may have
grown up to a new index. Else nothing happens. What the object inherits has no part in it: with
another prototype, in another world, the object becomes the same. -/
theorem set_reads_back (e : Engine κ σ) {w : World κ σ} {o : ObjectId} {data : Object κ}
    {key : Text} (hd : w.realm.heap.get? o = some data)
    (haccessor : (data.own? key).any Property.isAccessor = false)
    (hlength : key = lengthKey → data.elements = none) (v : Value) :
    ∃ w', e.set o key v w = (.done (), w') ∧
      (data.accepts key = false → w' = w) ∧
      (data.accepts key = true →
        (∃ data', w'.realm.heap.get? o = some data' ∧ data.Writes key v data') ∧
        ∀ p, p ≠ o → w'.realm.heap.get? p = w.realm.heap.get? p) ∧
      ∀ (e₂ : Engine κ σ) (w₂ : World κ σ) (proto : Option ObjectId),
        w₂.realm.heap.get? o = some { data with prototype := proto } →
        ∃ w₂', e₂.set o key v w₂ = (.done (), w₂') ∧
          w₂'.realm.heap.get? o =
            (w'.realm.heap.get? o).map fun data' => { data' with prototype := proto } := by
  rcases Object.assign_cases haccessor hlength v with
    ⟨hrefused, hassign⟩ | ⟨haccepted, data', hassign, hwrites⟩
  · refine ⟨w, set_of_ignored hd hassign, fun _ => rfl, fun h => ?_, fun e₂ w₂ proto hd₂ => ?_⟩
    · rw [hrefused] at h
      cases h
    · refine ⟨w₂, set_of_ignored hd₂ ?_, ?_⟩
      · rw [Object.assign_prototype, hassign]
        rfl
      · rw [hd₂, hd]
        rfl
  · obtain ⟨w', hset, hget, hothers⟩ := set_of_object (e := e) hd hassign
    refine ⟨w', hset, fun h => ?_, fun _ => ⟨⟨data', hget, hwrites⟩, hothers⟩, ?_⟩
    · rw [haccepted] at h
      cases h
    · intro e₂ w₂ proto hd₂
      have hassign₂ : ({ data with prototype := proto } : Object κ).assign key v =
          .ok (.object { data' with prototype := proto }) := by
        rw [Object.assign_prototype, hassign]
        rfl
      obtain ⟨w₂', hset₂, hget₂, -⟩ := set_of_object (e := e₂) hd₂ hassign₂
      refine ⟨w₂', hset₂, ?_⟩
      rw [hget₂, hget]
      rfl

/-- Behind an array of one element, an assignment makes the elements grow. -/
theorem set_reads_back_grown :
    let w : World Unit Unit := ⟨((Realm.fresh {} : Realm Unit).createArray #[.null]).2, ()⟩
    let e : Engine Unit Unit := Library.silent.engine 1
    ∃ w', e.set ⟨10⟩ (.ofNat 3) (.boolean true) w = (.done (), w') ∧
      w'.realm.ownProperty? ⟨10⟩ (.ofNat 3) = .ok (some (.plain (.boolean true))) ∧
      w'.realm.ownProperty? ⟨10⟩ (.ofNat 2) = .ok (some (.plain .undefined)) ∧
      w'.realm.ownProperty? ⟨10⟩ lengthKey = .ok (some (.data (.ofNat 4) true false false)) ∧
      ∀ p, p ≠ ⟨10⟩ → w'.realm.heap.get? p = w.realm.heap.get? p := by
  intro w e
  have hview : (w.realm.heap.get? ⟨10⟩).map (fun data =>
      (data.own? (.ofNat 3), data.extensible, data.growsTo? (.ofNat 3),
        data.grownOwn? 3 (.ofNat 2), data.grownOwn? 3 lengthKey)) =
      some (none, true, some 3, some (.plain .undefined),
        some (.data (.ofNat 4) true false false)) := by
    decide +kernel
  obtain ⟨data, hd, hdata⟩ := Option.map_eq_some_iff.1 hview
  simp only [Prod.mk.injEq] at hdata
  obtain ⟨hown, hextensible, hgrows, htwo, hcount⟩ := hdata
  have haccessor : (data.own? (.ofNat 3)).any Property.isAccessor = false := by rw [hown]; rfl
  have haccepts : data.accepts (.ofNat 3) = true := by rw [Object.accepts, hown, hextensible]
  have hlength : Text.ofNat 3 ≠ lengthKey := by decide +kernel
  obtain ⟨w', hset, -, hstored, -⟩ :=
    set_reads_back e hd haccessor (fun h => absurd h hlength) (.boolean true)
  obtain ⟨⟨data', hd', hwrites⟩, hothers⟩ := hstored haccepts
  refine ⟨w', hset, ?_, ?_, ?_, hothers⟩
  · rw [Realm.ownProperty?_of_get? hd', hwrites.own_key, hown]
    rfl
  · rw [Realm.ownProperty?_of_get? hd', hwrites.own_other _ (by decide +kernel), hgrows,
      Option.elim_some, htwo]
  · rw [Realm.ownProperty?_of_get? hd', hwrites.own_other _ hlength.symm, hgrows,
      Option.elim_some, hcount]

end Engine

end Ecma
