import Ecma.Proofs.ReadBack

/-!
# How dense elements change

Assigning, defining and deleting store or erase a property, or else edit the dense elements in one
of three ways: an element is written, the elements grow up to an index behind them, or they are cut
or filled up to a length (`ElementEdit`). What an edit does to each element and to their number is
said here once, for all three operations.
-/

namespace Ecma

variable {κ : Type}

/-- An element after a change of length is the old one, or undefined where there was none. -/
theorem getElem?_resize (elements : Array Value) (n i : Nat) :
    (resize elements n)[i]? = if i < n then some (elements[i]?.getD .undefined) else none := by
  have hsize : (elements.take n).size = min n elements.size := by simp
  rw [resize, Array.getElem?_append, hsize]
  by_cases hi : i < min n elements.size
  · have hn : i < n := by omega
    have hlt : i < elements.size := by omega
    simp [hi, hn, hlt]
  · rw [if_neg hi, Array.getElem?_replicate]
    by_cases hn : i < n
    · have hnone : elements[i]? = none := Array.getElem?_eq_none (by omega)
      rw [if_pos hn, if_pos (by omega), hnone]
      rfl
    · rw [if_neg hn, if_neg (by omega)]

/-- An edit of dense elements by a value under a key. Only the elements of an extensible object grow
up to a new index. -/
inductive ElementEdit (extensible : Bool) (elements : Array Value) (key : Text) (v : Value) :
    Array Value → Prop where
  | write {i : Nat} (hi : key.arrayIndex? = some i) (hlt : i < elements.size) :
      ElementEdit extensible elements key v (elements.setIfInBounds i v)
  | grow {i : Nat} (hx : extensible = true) (hi : key.arrayIndex? = some i)
      (hle : elements.size ≤ i) :
      ElementEdit extensible elements key v ((resize elements i).push v)
  | resize {n : Nat} (hk : key = lengthKey) (hn : arrayLength v elements.size = .ok n) :
      ElementEdit extensible elements key v (resize elements n)

namespace ElementEdit

variable {extensible : Bool} {elements elements' : Array Value} {key : Text} {u v : Value} {i : Nat}

/-- Every element was there before, fills a gap, or is the value under the key of its index. -/
theorem getElem?_cases (h : ElementEdit extensible elements key v elements')
    (hu : elements'[i]? = some u) :
    elements[i]? = some u ∨ u = .undefined ∨ key.arrayIndex? = some i ∧ u = v := by
  -- a gap is filled with undefined
  have hfill : some (elements[i]?.getD .undefined) = some u →
      elements[i]? = some u ∨ u = .undefined := by
    cases elements[i]? with
    | none => exact fun h => Or.inr (Option.some.inj h).symm
    | some w => exact Or.inl
  cases h with
  | @write j hj hlt =>
    rw [Array.getElem?_setIfInBounds] at hu
    split at hu
    · rename_i hji
      subst hji
      exact Or.inr (Or.inr ⟨hj, (Option.some.inj hu).symm⟩)
    · exact Or.inl hu
  | @grow j hx hj hle =>
    rw [getElem?_grown hle] at hu
    split at hu
    · rename_i hij
      subst hij
      exact Or.inr (Or.inr ⟨hj, (Option.some.inj hu).symm⟩)
    · split at hu
      · exact (hfill hu).imp_right Or.inl
      · cases hu
  | resize hk hn =>
    rw [getElem?_resize] at hu
    split at hu
    · exact (hfill hu).imp_right Or.inl
    · cases hu

/-- There are as many elements as before, or as many as the length says, or one more than an index
of an extensible object. -/
theorem size_cases (h : ElementEdit extensible elements key v elements') :
    elements'.size = elements.size ∨
      key = lengthKey ∧ arrayLength v elements.size = .ok elements'.size ∨
      ∃ i, extensible = true ∧ key.arrayIndex? = some i ∧ elements'.size = i + 1 := by
  cases h with
  | write hi hlt => exact Or.inl Array.size_setIfInBounds
  | @grow i hx hi hle => exact Or.inr (Or.inr ⟨i, hx, hi, by rw [Array.size_push, size_resize]⟩)
  | resize hk hn => exact Or.inr (Or.inl ⟨hk, by rw [size_resize, hn]⟩)

end ElementEdit

/-- A length that is accepted is not too far behind the elements. -/
theorem le_of_arrayLength {v : Value} {current n : Nat} (h : arrayLength v current = .ok n) :
    n ≤ current + maxDenseGap := by
  unfold arrayLength at h
  split at h
  · split at h
    · split at h
      · rename_i hle
        rwa [← Except.ok.inj h]
      · cases h
    · cases h
  · cases h

namespace Object

variable {o o' : Object κ} {key : Text}

/-- The second object is the first one after an edit of its elements under a key that no stored
property hides. -/
structure Edits (o : Object κ) (extensible : Bool) (key : Text) (v : Value) (o' : Object κ) :
    Prop where
  hidden : o.properties.get? key = none
  edit : ∃ elements elements', o.elements = some elements ∧
    ElementEdit extensible elements key v elements' ∧
    o' = { o with elements := some elements' }

/-- A length that is accepted cuts the elements or fills them up. -/
theorem assign_lengthKey {elements : Array Value} {v : Value} {n : Nat}
    (hstored : o.properties.get? lengthKey = none) (he : o.elements = some elements)
    (hn : arrayLength v elements.size = .ok n) :
    o.assign lengthKey v = .ok (.object { o with elements := some (resize elements n) }) := by
  simp only [assign, hstored, assignAbsent, he, hn, if_true]
  rfl

/-- Assigning stores a property, which is there before or new on an extensible object, or edits the
elements. -/
theorem assign_edits {v : Value} (h : o.assign key v = .ok (.object o')) :
    (∃ w e c, (o.properties.contains key = true ∨ o.extensible = true) ∧
      o' = o.putProperty key (.data v w e c)) ∨ o.Edits o.extensible key v o' := by
  have hadd : (if o.extensible then Stored.object (o.putProperty key (.plain v)) else .ignored) =
      .object o' → ∃ w e c, (o.properties.contains key = true ∨ o.extensible = true) ∧
        o' = o.putProperty key (.data v w e c) := by
    intro hadd
    split at hadd
    · rename_i hx
      exact ⟨true, true, true, Or.inr hx, (Stored.object.inj hadd).symm⟩
    · cases hadd
  unfold assign at h
  split at h
  · cases h
  · cases h
  · rename_i u w e c hp
    split at h
    · refine Or.inl ⟨w, e, c, Or.inl ?_, (Stored.object.inj (Except.ok.inj h)).symm⟩
      rw [OrderedMap.contains, hp]
      rfl
    · cases h
  · rename_i hnone
    unfold assignAbsent at h
    dsimp only at h
    split at h
    · exact Or.inl (hadd (Except.ok.inj h))
    · rename_i elements he
      split at h
      · rename_i hk
        obtain ⟨n, hn, h⟩ := Except.bind_eq_ok h
        have ho' := (Stored.object.inj (Except.ok.inj h)).symm
        exact Or.inr ⟨hnone, elements, _, he, .resize hk hn, ho'⟩
      · split at h
        · exact Or.inl (hadd (Except.ok.inj h))
        · rename_i i hi
          split at h
          · rename_i hlt
            have ho' := (Stored.object.inj (Except.ok.inj h)).symm
            exact Or.inr ⟨hnone, elements, _, he, .write hi hlt, ho'⟩
          · rename_i hge
            split at h
            · cases h
            · rename_i hx
              rw [Bool.not_eq_true, Bool.not_eq_false'] at hx
              split at h
              · have ho' := (Stored.object.inj (Except.ok.inj h)).symm
                exact Or.inr ⟨hnone, elements, _, he, .grow hx hi (Nat.le_of_not_lt hge), ho'⟩
              · exact Or.inl ⟨true, true, true, Or.inr hx,
                  (Stored.object.inj (Except.ok.inj h)).symm⟩

/-- Defining stores the completed property, leaves the object alone, or edits the elements, which do
not grow up to an index then. -/
theorem define_edits {d : Descriptor} (h : o.define key d = .ok o') :
    o' = o.putProperty key (d.complete (o.own? key)) ∨ o' = o ∨
      ∃ v, d.value = some v ∧ o.Edits false key v o' := by
  unfold define at h
  split at h
  · rename_i result hresult
    obtain ⟨elements', rfl, rfl⟩ := Except.map_eq_ok h
    right
    unfold defineElement? at hresult
    split at hresult
    · cases hresult
    rename_i elements he
    have hself : { o with elements := some elements } = o := by rw [← he]
    split at hresult
    · cases hresult
    rename_i hfree
    have hnone : o.properties.get? key = none := by
      rw [Bool.or_eq_true, not_or, OrderedMap.contains, Option.not_isSome_iff_eq_none] at hfree
      exact hfree.2
    split at hresult
    · rename_i hk
      split at hresult
      · cases hresult
        exact Or.inl hself
      · rename_i v hv
        obtain ⟨n, hn, rfl⟩ := Except.map_eq_ok (Option.some.inj hresult)
        exact Or.inr ⟨v, hv, hnone, elements, _, he, .resize hk hn, rfl⟩
    · split at hresult
      · rename_i i hi
        split at hresult
        · rename_i hplain
          rw [Bool.and_eq_true, decide_eq_true_eq] at hplain
          cases hresult
          cases hv : d.value with
          | none => exact Or.inl hself
          | some v => exact Or.inr ⟨v, rfl, hnone, elements, _, he, .write hi hplain.1, rfl⟩
        · cases hresult
      · cases hresult
  · exact Or.inl (Except.ok.inj h).symm

/-- Deleting where no property is stored writes undefined over an element, or does nothing. -/
theorem delete_edits (h : o.delete key = .element o') :
    o.properties.get? key = none ∧
      (o' = o ∧ o.elementProperty? key = none ∨ o.Edits false key .undefined o') := by
  unfold delete at h
  split at h
  · split at h <;> cases h
  rename_i hnone
  refine ⟨hnone, ?_⟩
  split at h
  · rename_i he
    refine Or.inl ⟨(Deleted.element.inj h).symm, ?_⟩
    rw [elementProperty?, he]
    rfl
  rename_i elements he
  split at h
  · cases h
  rename_i hname
  split at h
  · rename_i hi
    exact Or.inl ⟨(Deleted.element.inj h).symm, elementProperty?_of_name hi hname⟩
  · rename_i i hi
    obtain rfl := Deleted.element.inj h
    by_cases hlt : i < elements.size
    · exact Or.inr ⟨hnone, elements, _, he, .write hi hlt, rfl⟩
    · have hself : elements.setIfInBounds i .undefined = elements := by
        rw [Array.setIfInBounds, dif_neg hlt]
      rw [hself, ← he]
      refine Or.inl ⟨rfl, ?_⟩
      rw [elementProperty?_of_arrayIndex? hi he, Array.getElem?_eq_none (Nat.le_of_not_lt hlt)]
      rfl

end Object

end Ecma
