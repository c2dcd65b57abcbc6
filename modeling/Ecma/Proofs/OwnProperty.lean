import Ecma.Proofs.Assignment
import Ecma.Proofs.OwnKeys

/-!
# Own properties and where they are kept

An own property is a stored one or, if none hides it, one that the dense elements show. Where a
change is kept does not matter to those who ask for properties: a definition that goes to an element
shows the same as one that is always stored, under all keys (`Object.define_shows`). It completes
its descriptor with what was there before, so that defining it again changes nothing
(`Descriptor.complete_complete`).
-/

namespace Ecma

variable {κ : Type}

/-! ## Descriptors -/

namespace Descriptor

variable (d : Descriptor) (current : Option Property)

/-- What a descriptor leaves open is taken from the property that it has been completed to. -/
theorem complete_complete : d.complete (some (d.complete current)) = d.complete current := by
  have hget : ∀ {α : Type} (a : Option α) (b : α), a.getD (a.getD b) = a.getD b := by
    intro α a b
    cases a <;> rfl
  have hor : ∀ a b : Option Value, a.or (a.or b) = a.or b := by
    intro a b
    cases a <;> rfl
  by_cases haccessor : d.isAccessor = true
  · rcases current with _ | ⟨v, w, e, c⟩ | ⟨g, s, e, c⟩
    all_goals simp [complete, haccessor, Property.enumerable, Property.configurable, hget, hor]
  · by_cases hdata : d.isData = true
    · rcases current with _ | ⟨v, w, e, c⟩ | ⟨g, s, e, c⟩
      all_goals simp [complete, haccessor, hdata, Property.enumerable, Property.configurable, hget]
    · rcases current with _ | ⟨v, w, e, c⟩ | ⟨g, s, e, c⟩
      all_goals simp [complete, haccessor, hdata, Property.enumerable, Property.configurable, hget]

/-- A descriptor that denies nothing leaves a plain property plain. -/
theorem complete_plain {d : Descriptor} (haccessor : d.isAccessor = false)
    (hplain : d.isPlain = true) (v : Value) :
    d.complete (some (.plain v)) = .plain (d.value.getD v) := by
  have hattribute : ∀ b : Option Bool, b ≠ some false → b.getD true = true := by
    rintro (_ | _ | _) hb
    · rfl
    · exact absurd rfl hb
    · rfl
  simp only [isPlain, Bool.and_eq_true, bne_iff_ne] at hplain
  simp [complete, haccessor, Property.plain, Property.enumerable, Property.configurable,
    hattribute _ hplain.1.1, hattribute _ hplain.1.2, hattribute _ hplain.2]

end Descriptor

/-! ## What the dense elements show -/

namespace Object

variable {o : Object κ} {key k : Text} {elements : Array Value} {i : Nat}

theorem elementProperty?_lengthKey (o : Object κ) :
    o.elementProperty? lengthKey =
      o.elements.map fun elements => .data (.ofNat elements.size) true false false := by
  unfold elementProperty?
  cases o.elements <;> simp

theorem elementProperty?_of_arrayIndex? (hi : k.arrayIndex? = some i)
    (he : o.elements = some elements) :
    o.elementProperty? k = elements[i]?.map Property.plain := by
  have hname : k ≠ lengthKey := by
    rintro rfl
    rw [arrayIndex?_lengthKey] at hi
    cases hi
  unfold elementProperty?
  simp only [he, Option.bind_eq_bind, Option.bind_some, if_neg hname, hi, Option.map_eq_bind]
  rfl

/-- Under a key that is neither an index nor the length, the elements show nothing. -/
theorem elementProperty?_of_name (hi : k.arrayIndex? = none) (hname : k ≠ lengthKey) :
    o.elementProperty? k = none := by
  unfold elementProperty?
  cases o.elements <;> simp [hname, hi]

theorem arrayIndex?_inj (hi : key.arrayIndex? = some i) (hk : k.arrayIndex? = some i) :
    k = key := by
  rw [(Text.arrayIndex?_eq_some_iff.1 hi).2, (Text.arrayIndex?_eq_some_iff.1 hk).2]

/-- Writing an element changes what its index shows, if no stored property hides it, and nothing
else. -/
theorem own?_setElement (he : o.elements = some elements) (hi : key.arrayIndex? = some i)
    (hlt : i < elements.size) (hstored : o.properties.get? key = none) (v : Value) (k : Text) :
    ({ o with elements := some (elements.setIfInBounds i v) } : Object κ).own? k =
      if k = key then some (.plain v) else o.own? k := by
  rw [own?, own?]
  by_cases hk : k = key
  · subst hk
    rw [if_pos rfl, hstored, elementProperty?_of_arrayIndex? hi rfl]
    simp [hlt]
  · rw [if_neg hk]
    congr 1
    by_cases hname : k = lengthKey
    · subst hname
      simp [elementProperty?_lengthKey, he]
    · cases hj : k.arrayIndex? with
      | none => rw [elementProperty?_of_name hj hname, elementProperty?_of_name hj hname]
      | some j =>
        have hij : i ≠ j := by
          rintro rfl
          exact hk (arrayIndex?_inj hi hj)
        rw [elementProperty?_of_arrayIndex? hj rfl, elementProperty?_of_arrayIndex? hj he,
          Array.getElem?_setIfInBounds_ne hij]

/-! ## Definitions -/

/-- A definition goes to an element if the key is the index of one, no stored property hides it, and
the descriptor denies no attribute and has no accessor. Else it is stored. -/
theorem defineElement?_cases (hlength : key = lengthKey → o.elements = none) (d : Descriptor) :
    o.defineElement? key d = none ∨
      ∃ elements i u, o.elements = some elements ∧ key.arrayIndex? = some i ∧
        elements[i]? = some u ∧ o.properties.get? key = none ∧ d.isAccessor = false ∧
        d.isPlain = true ∧
        o.defineElement? key d = some (.ok (elements.setIfInBounds i (d.value.getD u))) := by
  unfold defineElement?
  split
  · exact Or.inl rfl
  rename_i elements he
  split
  · exact Or.inl rfl
  rename_i hfree
  split
  · rename_i hname
    rw [hlength hname] at he
    cases he
  split
  · rename_i i hi
    split
    · rename_i hplain
      rw [Bool.or_eq_true, not_or, Bool.not_eq_true, Bool.not_eq_true, OrderedMap.contains,
        Option.isSome_eq_false_iff, Option.isNone_iff_eq_none] at hfree
      rw [Bool.and_eq_true, decide_eq_true_eq] at hplain
      have hself : elements.setIfInBounds i elements[i] = elements := by
        rw [Array.setIfInBounds, dif_pos hplain.1, Array.set_getElem_self]
      refine Or.inr ⟨elements, i, elements[i], he, hi, by simp, hfree.2, hfree.1, hplain.2, ?_⟩
      cases d.value with
      | none => rw [Option.getD_none, hself]; rfl
      | some v => rfl
    · exact Or.inl rfl
  · exact Or.inl rfl

/-- Wherever it is kept, a definition shows the completed property under its key, and under all
others what was there before. -/
theorem define_shows (hlength : key = lengthKey → o.elements = none) (d : Descriptor) :
    ∃ o', o.define key d = .ok o' ∧ o'.elements.isSome = o.elements.isSome ∧
      ∀ k, o'.own? k = if k = key then some (d.complete (o.own? key)) else o.own? k := by
  unfold define
  rcases defineElement?_cases hlength d with hnone |
    ⟨elements, i, u, he, hi, hu, hstored, haccessor, hplain, hdefine⟩
  · rw [hnone]
    exact ⟨_, rfl, rfl, fun k => own?_putProperty o key k _⟩
  · have hown : o.own? key = some (.plain u) := by
      rw [own?, hstored, elementProperty?_of_arrayIndex? hi he, hu]
      rfl
    rw [hdefine, hown, Descriptor.complete_plain haccessor hplain]
    refine ⟨_, rfl, by rw [he]; rfl, fun k => ?_⟩
    exact own?_setElement he hi (Array.getElem?_eq_some_iff.1 hu).1 hstored _ k

end Object

/-! ## Definitions in a realm -/

namespace Realm

variable {r : Realm κ} {o p : ObjectId} {data : Object κ} {key k : Text}

theorem ownProperty?_of_get? (hd : r.heap.get? o = some data) (k : Text) :
    r.ownProperty? o k = .ok (data.own? k) := by
  rw [ownProperty?, object_eq_ok.2 hd]
  rfl

theorem get?_replaceObject_self (hd : r.heap.get? o = some data) (data' : Object κ) :
    (r.replaceObject o data').heap.get? o = some data' := by
  rw [heap_replaceObject, Heap.get?_replace, if_pos rfl, hd]
  rfl

theorem get?_replaceObject_of_ne (hp : p ≠ o) (data : Object κ) :
    (r.replaceObject o data).heap.get? p = r.heap.get? p := by
  rw [heap_replaceObject, Heap.get?_replace, if_neg hp]

/-- The own properties of an object depend on the object alone. -/
theorem ownProperty?_congr {r' : Realm κ} (h : r'.heap.get? p = r.heap.get? p) (k : Text) :
    r'.ownProperty? p k = r.ownProperty? p k := by
  rw [ownProperty?, ownProperty?, object, object, h]

/-- A definition in a realm is one in the object, and leaves the other objects alone. -/
theorem define_shows (hd : r.heap.get? o = some data)
    (hlength : key = lengthKey → data.elements = none) (d : Descriptor) :
    ∃ r' data', r.define o key d = .ok r' ∧ r'.heap.get? o = some data' ∧
      data'.elements.isSome = data.elements.isSome ∧
      (∀ k, data'.own? k = if k = key then some (d.complete (data.own? key)) else data.own? k) ∧
      ∀ p, p ≠ o → r'.heap.get? p = r.heap.get? p := by
  obtain ⟨data', hdefine, helements, hown⟩ := Object.define_shows hlength d
  refine ⟨(r.replaceObject o data').sync data' key, data', ?_, ?_, helements, hown, ?_⟩
  · rw [define, object_eq_ok.2 hd]
    simp only [bind, Except.bind, hdefine]
    rfl
  · rw [heap_sync, get?_replaceObject_self hd]
  · intro p hp
    rw [heap_sync, get?_replaceObject_of_ne hp]

/-- A definition under any key but the length of dense elements succeeds. The property is then the
descriptor, completed with what was there before, all other keys and objects show what they showed,
and so all is as if the property had been stored, whether it is or not. Defining the same once more
changes nothing that any object shows. -/
theorem define_as_stored (hd : r.heap.get? o = some data)
    (hlength : key = lengthKey → data.elements = none) (d : Descriptor) :
    ∃ r', r.define o key d = .ok r' ∧
      r'.ownProperty? o key = .ok (some (d.complete (data.own? key))) ∧
      (∀ k, k ≠ key → r'.ownProperty? o k = r.ownProperty? o k) ∧
      (∀ p, p ≠ o → r'.heap.get? p = r.heap.get? p) ∧
      (∀ p k, r'.ownProperty? p k =
        (r.replaceObject o (data.putProperty key (d.complete (data.own? key)))).ownProperty? p
          k) ∧
      ∃ r'', r'.define o key d = .ok r'' ∧ ∀ p k, r''.ownProperty? p k = r'.ownProperty? p k := by
  obtain ⟨r', data', hdefine, hd', helements, hown, hothers⟩ := define_shows hd hlength d
  have hlength' : key = lengthKey → data'.elements = none := by
    intro hkey
    rw [hlength hkey] at helements
    simpa using helements
  obtain ⟨r'', data'', hdefine', hd'', -, hown', hothers'⟩ := define_shows hd' hlength' d
  refine ⟨r', hdefine, ?_, fun k hk => ?_, hothers, fun p k => ?_, r'', hdefine', fun p k => ?_⟩
  · rw [ownProperty?_of_get? hd', hown, if_pos rfl]
  · rw [ownProperty?_of_get? hd', ownProperty?_of_get? hd, hown, if_neg hk]
  · by_cases hp : p = o
    · subst hp
      rw [ownProperty?_of_get? hd', ownProperty?_of_get? (get?_replaceObject_self hd _), hown,
        Object.own?_putProperty]
    · exact ownProperty?_congr ((hothers p hp).trans (get?_replaceObject_of_ne hp _).symm) k
  · by_cases hp : p = o
    · subst hp
      rw [ownProperty?_of_get? hd'', ownProperty?_of_get? hd', hown']
      split
      · rename_i hk
        rw [hk, hown, if_pos rfl, Descriptor.complete_complete]
      · rfl
    · exact ownProperty?_congr (hothers' p hp) k

/-- Over an element, a value alone goes to the element, and one that enumeration is not to show goes
to the stored properties. Both keep the attributes that they leave open. -/
theorem define_as_stored_element :
    let r := ((fresh {} : Realm Unit).createArray #[.null]).2
    let zero := Text.ofNat 0
    let hidden : Descriptor := { value := some (.boolean true), enumerable := some false }
    (∃ r' r'', r.define ⟨10⟩ zero { value := some (.boolean true) } = .ok r' ∧
      r'.ownProperty? ⟨10⟩ zero = .ok (some (.data (.boolean true) true true true)) ∧
      r'.define ⟨10⟩ zero { value := some (.boolean true) } = .ok r'' ∧
      ∀ p k, r''.ownProperty? p k = r'.ownProperty? p k) ∧
    ∃ r', r.define ⟨10⟩ zero hidden = .ok r' ∧
      r'.ownProperty? ⟨10⟩ zero = .ok (some (.data (.boolean true) true false true)) ∧
      ∀ k, k ≠ zero → r'.ownProperty? ⟨10⟩ k = r.ownProperty? ⟨10⟩ k := by
  intro r zero hidden
  have hview : (r.heap.get? ⟨10⟩).map (·.own? zero) = some (some (.plain .null)) := by
    decide +kernel
  obtain ⟨data, hd, hown⟩ := Option.map_eq_some_iff.1 hview
  have hzero : zero = lengthKey → data.elements = none := fun h => absurd h (by decide +kernel)
  obtain ⟨r₁, hr₁, hzero₁, -, -, -, r₂, hr₂, hsame⟩ :=
    define_as_stored hd hzero { value := some (.boolean true) }
  obtain ⟨r₃, hr₃, hzero₃, hothers, -⟩ := define_as_stored hd hzero hidden
  rw [hown] at hzero₁ hzero₃
  exact ⟨⟨r₁, r₂, hr₁, hzero₁, hr₂, hsame⟩, r₃, hr₃, hzero₃, hothers⟩

end Realm

end Ecma
