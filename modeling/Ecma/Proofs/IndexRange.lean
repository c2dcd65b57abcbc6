import Ecma.Proofs.Turn

/-!
# Elements beyond the range of indices

Every dense element has an index as long as there are at most `indexLimit` of them
(`Object.Indexed`). Writing under an index keeps to that, as no index is behind the last one. A
length is only compared with the number of elements that are there: an array which is nearly full
accepts one that is too great (`Realm.Overruns`), and its last elements have no index any more. No
other step leads out of the range.
-/

namespace Ecma

open Relation

variable {κ : Type}

/-- The request makes no array with elements beyond the range of indices, nor does it write elements
past all checks. -/
def Request.Bounded : Request κ → Prop
  | createArray elements => elements.size ≤ indexLimit
  | writeElements .. => False
  | _ => True

/-! ## Edits and turns -/

/-- Only a length leads out of the range. -/
theorem Object.Edits.indexed {o o' : Object κ} {extensible : Bool} {key : Text} {v : Value}
    (h : o.Edits extensible key v o') (hi : o.Indexed) :
    o'.Indexed ∨ key = lengthKey ∧ ∃ elements elements', o.elements = some elements ∧
      o'.elements = some elements' ∧ arrayLength v elements.size = .ok elements'.size ∧
      indexLimit < elements'.size := by
  obtain ⟨elements, elements', he, hedit, rfl⟩ := h.edit
  have hfew : elements.size ≤ indexLimit := hi elements he
  by_cases hfew' : elements'.size ≤ indexLimit
  · left
    intro es hes
    rwa [← Option.some.inj hes]
  · right
    have hmany := Nat.lt_of_not_le hfew'
    rcases hedit.size_cases with hsize | ⟨hk, hn⟩ | ⟨i, -, hindex, hsize⟩
    · omega
    · exact ⟨hk, elements, elements', he, rfl, hn, hmany⟩
    · -- the index is in range, and so is the number of elements up to it
      have hlt := (Text.arrayIndex?_eq_some_iff.1 hindex).1
      omega

namespace Realm

/-- A length is accepted that takes the elements of an object out of the range of indices. -/
inductive Overruns (r : Realm κ) (o : ObjectId) (r' : Realm κ) : Prop where
  | intro {data data' : Object κ} {elements elements' : Array Value} {v : Value}
      (hd : r.heap.get? o = some data) (he : data.elements = some elements)
      (hd' : r'.heap.get? o = some data') (he' : data'.elements = some elements')
      (hn : arrayLength v elements.size = .ok elements'.size)
      (hfew : elements.size ≤ indexLimit) (hmany : indexLimit < elements'.size)
      (hwrite : r.assign o lengthKey v = .ok (.stored r') ∨
        ∃ d, d.value = some v ∧ r.define o lengthKey d = .ok r')

/-- The dense elements of all objects are in the range of indices. -/
def InRange (r : Realm κ) : Prop := ∀ o data, r.heap.get? o = some data → data.Indexed

variable {r r' : Realm κ} {o : ObjectId} {data data' : Object κ}

theorem Turn.indexed (h : Turn Request.Bounded r o data r' data') (hd : r.heap.get? o = some data)
    (hd' : r'.heap.get? o = some data') (hi : data.Indexed) :
    data'.Indexed ∨ r.Overruns o r' := by
  cases h with
  | take h =>
    left
    rw [Object.Indexed, h.elements]
    exact hi
  | assign h hdata =>
    rcases Object.assign_edits hdata with ⟨w, e, c, -, rfl⟩ | hedits
    · exact Or.inl hi
    · rcases hedits.indexed hi with hi' | ⟨rfl, elements, elements', he, he', hn, hmany⟩
      · exact Or.inl hi'
      · exact Or.inr ⟨hd, he, hd', he', hn, hi elements he, hmany, Or.inl h⟩
  | define ha h hdata =>
    rcases Object.define_edits hdata with rfl | rfl | ⟨v, hv, hedits⟩
    · exact Or.inl hi
    · exact Or.inl hi
    · rcases hedits.indexed hi with hi' | ⟨rfl, elements, elements', he, he', hn, hmany⟩
      · exact Or.inl hi'
      · exact Or.inr ⟨hd, he, hd', he', hn, hi elements he, hmany, Or.inr ⟨_, hv, h⟩⟩
  | delete ha hdata =>
    left
    rcases hdata with hdata | hdata
    · rw [Object.delete_eq_property hdata]
      exact hi
    · rcases (Object.delete_edits hdata).2 with ⟨rfl, -⟩ | hedits
      · exact hi
      · rcases hedits.indexed hi with hi' | ⟨-, elements, elements', -, -, hn, -⟩
        · exact hi'
        · cases hn
  | writeElements ha => exact absurd ha id

/-! ## Runs -/

theorem InRange.step (h : r.InRange) (hw : r.heap.WellFormed) (hs : Step Request.Bounded r r') :
    r'.InRange ∨ ∃ o, r.Overruns o r' := by
  by_cases hover : ∃ o, r.Overruns o r'
  · exact Or.inr hover
  · refine Or.inl fun o data' hd' => ?_
    rcases hs.fate hw hd' with ⟨data, hd, hturn⟩ | ⟨-, hnew⟩
    · exact (hturn.indexed hd hd' (h o data hd)).resolve_right fun ho => hover ⟨o, ho⟩
    · exact hnew

theorem inRange_fresh (options : Options) : (fresh options : Realm κ).InRange := by
  have hintrinsic : ∀ i id, Object.Indexed { (intrinsicObject i : Object κ) with id := id } := by
    intro i id elements he
    cases i with
    | array =>
      rw [← Option.some.inj he]
      exact Nat.zero_le _
    | _ => cases he
  refine EachObject.fresh (P := Object.Indexed) ?_ ?_ hintrinsic ?_ options
  · exact fun data key v w e c h => h
  · exact fun data s h => h
  · intro id elements he
    cases he

/-- A run stays in range as long as no length overruns it. -/
theorem inRange_or_overruns (h : ReflTransGen (Step Request.Bounded) r r')
    (hw : r.heap.WellFormed) (hr : r.InRange) :
    r'.heap.WellFormed ∧ (r'.InRange ∨ ∃ s s' o, ReflTransGen (Step Request.Bounded) r s ∧
      s.Overruns o s' ∧ ReflTransGen (Step Request.Bounded) s' r') := by
  induction h with
  | refl => exact ⟨hw, Or.inl hr⟩
  | tail hrun hs ih =>
    obtain ⟨hw, hrange | ⟨s, s', o, hbefore, hover, hafter⟩⟩ := ih
    · refine ⟨hw.moves hs.moves, (hrange.step hw hs).imp_right ?_⟩
      rintro ⟨o, hover⟩
      exact ⟨_, _, o, hrun, hover, .refl⟩
    · exact ⟨hw.moves hs.moves, Or.inr ⟨s, s', o, hbefore, hover, hafter.tail hs⟩⟩

/-- The length right behind the range is a length. -/
theorem arrayLength_indexLimit {n : Nat} (h : indexLimit < n + maxDenseGap) :
    arrayLength (.ofNat (indexLimit + 1)) n = .ok (indexLimit + 1) := by
  have hread : (Double.ofNat (indexLimit + 1)).toNat? = some (indexLimit + 1) := by decide +kernel
  simp only [arrayLength, Value.ofNat, hread]
  rw [if_pos (Nat.succ_le_of_lt h)]

/-- Elements can be led out of the range exactly if a step of growth leads that far. -/
theorem exists_overruns_iff {elements : Array Value} (hd : r.heap.get? o = some data)
    (he : data.elements = some elements) (hstored : data.properties.get? lengthKey = none)
    (hfew : elements.size ≤ indexLimit) :
    (∃ r', r.Overruns o r') ↔ indexLimit < elements.size + maxDenseGap := by
  constructor
  · rintro ⟨r', hd₁, he₁, -, -, hn, -, hmany, -⟩
    obtain rfl := Option.some.inj (hd.symm.trans hd₁)
    obtain rfl := Option.some.inj (he.symm.trans he₁)
    exact Nat.lt_of_lt_of_le hmany (le_of_arrayLength hn)
  · intro hlt
    have hn := arrayLength_indexLimit hlt
    set data' : Object κ := { data with elements := some (resize elements (indexLimit + 1)) }
    have hassign : r.assign o lengthKey (.ofNat (indexLimit + 1)) =
        .ok (.stored ((r.replaceObject o data').sync data' lengthKey)) :=
      assign_of_object hd (Object.assign_lengthKey hstored he hn)
    have hd' : ((r.replaceObject o data').sync data' lengthKey).heap.get? o = some data' := by
      rw [heap_sync, get?_replaceObject_self hd]
    refine ⟨_, hd, he, hd', rfl, ?_, hfew, ?_, Or.inl hassign⟩
    · rw [size_resize, hn]
    · rw [size_resize]
      exact Nat.lt_succ_self _

/-- As long as arrays are made with elements in the range of indices and no elements are written
past the checks, all dense elements are in that range and have an index, unless a length was
accepted on the way that is beyond it. An array with elements in the range accepts such a length
exactly if it is less than a step of growth away from the end, where the length is not a stored
property. -/
theorem elements_in_range {options : Options} (h : Reached Request.Bounded options r) :
    ((∀ o data elements, r.heap.get? o = some data → data.elements = some elements →
        elements.size ≤ indexLimit ∧
          ∀ i, i < elements.size → (Text.ofNat i).arrayIndex? = some i) ∨
      ∃ s s' o, ReflTransGen (Step Request.Bounded) (fresh options) s ∧ s.Overruns o s' ∧
        ReflTransGen (Step Request.Bounded) s' r) ∧
    ∀ o data elements, r.heap.get? o = some data → data.elements = some elements →
      data.properties.get? lengthKey = none → elements.size ≤ indexLimit →
      ((∃ r', r.Overruns o r') ↔ indexLimit < elements.size + maxDenseGap) := by
  refine ⟨?_, fun o data elements hd he hstored hfew => exists_overruns_iff hd he hstored hfew⟩
  have hfresh : Reached Request.Bounded options (fresh options : Realm κ) := .fresh
  have hrun := inRange_or_overruns h.steps (heap_wellFormed_of_reached hfresh)
    (inRange_fresh options)
  refine hrun.2.imp_left fun hrange => ?_
  intro o data elements hd he
  have hfew := hrange o data hd elements he
  exact ⟨hfew, fun i hi => Text.arrayIndex?_ofNat (Nat.lt_of_lt_of_le hi hfew)⟩

/-- An array of three elements is far from the end of the range. -/
theorem elements_in_range_small :
    let r : Realm Unit := ((fresh {}).answer (.createArray #[.null])).answer
      (.set ⟨10⟩ lengthKey (.ofNat 3))
    Reached Request.Bounded {} r ∧ ∃ data, r.heap.get? ⟨10⟩ = some data ∧
      data.elements = some #[.null, .undefined, .undefined] ∧ ¬∃ r', r.Overruns ⟨10⟩ r' := by
  intro r
  have h : Reached Request.Bounded {} r := by
    refine Reached.fresh.requests [.createArray #[.null], .set ⟨10⟩ lengthKey (.ofNat 3)] ?_
    simp [Request.Bounded, indexLimit]
  have hview : (r.heap.get? ⟨10⟩).map (fun o => (o.elements, o.properties.get? lengthKey)) =
      some (some #[.null, .undefined, .undefined], none) := by decide +kernel
  obtain ⟨data, hd, hdata⟩ := Option.map_eq_some_iff.1 hview
  obtain ⟨he, hstored⟩ := Prod.mk.inj hdata
  refine ⟨h, data, hd, he, ?_⟩
  rw [(elements_in_range h).2 ⟨10⟩ data _ hd he hstored (by decide)]
  decide

/-- The array that a fresh realm makes first. -/
theorem get?_answer_createArray (elements : Array Value) :
    ((fresh {} : Realm Unit).answer (.createArray elements)).heap.get? ⟨10⟩ =
      some { Object.make .array (some Intrinsic.array.id) with
        elements := some elements, id := ⟨10⟩ } := by
  have hfresh : Reached (fun _ => True) {} (fresh {} : Realm Unit) := .fresh
  have hfree : (fresh {} : Realm Unit).heap.free = [] := by decide +kernel
  have hsize : (fresh {} : Realm Unit).heap.cells.size = 10 := by decide +kernel
  have hid : ∀ data, ((fresh {} : Realm Unit).heap.allocate data).1 = ⟨10⟩ := by
    intro data
    rw [Heap.allocate, hfree, hsize]
  have hget := (heap_wellFormed_of_reached hfresh).get?_allocate
    { Object.make .array (some Intrinsic.array.id) with elements := some elements } ⟨10⟩
  rw [hid, if_pos rfl] at hget
  exact hget

/-- It gets each length that it accepts. -/
theorem reached_length {elements : Array Value} {v : Value} {n : Nat}
    (hfew : elements.size ≤ indexLimit) (hn : arrayLength v elements.size = .ok n) :
    let r : Realm Unit := (fresh {}).answer (.createArray elements)
    let longer := r.answer (.set ⟨10⟩ lengthKey v)
    Reached Request.Bounded {} longer ∧
      ∃ data es, longer.heap.get? ⟨10⟩ = some data ∧ data.elements = some es ∧ es.size = n := by
  intro r longer
  have h : Reached Request.Bounded {} longer := by
    refine Reached.fresh.requests [.createArray elements, .set ⟨10⟩ lengthKey v] ?_
    simp [Request.Bounded, hfew]
  obtain ⟨w', hw', hd', -⟩ := Engine.set_of_object (e := Library.silent.engine 1) (w := ⟨r, ()⟩)
    (get?_answer_createArray elements) (Object.assign_lengthKey rfl rfl hn)
  have hlonger : longer = w'.realm := congrArg (fun x => x.2.realm) hw'
  exact ⟨h, _, _, hlonger ▸ hd', rfl, size_resize _ _⟩

/-- An array that fills the range of indices accepts a length right behind it, and then has an
element without an index. -/
theorem elements_out_of_range :
    let elements := Array.replicate indexLimit Value.undefined
    let r : Realm Unit := (fresh {}).answer (.createArray elements)
    let longer := r.answer (.set ⟨10⟩ lengthKey (.ofNat (indexLimit + 1)))
    Reached Request.Bounded {} longer ∧
      (∃ data es, longer.heap.get? ⟨10⟩ = some data ∧ data.elements = some es ∧
        es.size = indexLimit + 1) ∧
      (Text.ofNat indexLimit).arrayIndex? = none := by
  intro elements r longer
  have hsize : elements.size = indexLimit := Array.size_replicate
  have hn : arrayLength (.ofNat (indexLimit + 1)) elements.size = .ok (indexLimit + 1) :=
    arrayLength_indexLimit (by rw [hsize]; decide)
  obtain ⟨h, hlonger⟩ := reached_length (Nat.le_of_eq hsize) hn
  refine ⟨h, hlonger, Option.eq_none_iff_forall_ne_some.2 fun i hi => ?_⟩
  obtain ⟨hlt, heq⟩ := Text.arrayIndex?_eq_some_iff.1 hi
  exact absurd (Text.ofNat_injective heq) (Nat.ne_of_gt hlt)

end Realm

end Ecma
