/-!
# Maps in insertion order

A finite map that remembers the order in which its keys were first inserted. Overwriting keeps a
key's place, and erasing a key keeps the order of the others.
-/

namespace Ecma

/-- A finite map whose keys are in insertion order. -/
structure OrderedMap (α β : Type) where
  /-- The entries, oldest first. -/
  entries : List (α × β)
  /-- No key stands twice. -/
  nodup : (entries.map Prod.fst).Nodup

namespace OrderedMap

variable {α β : Type} [DecidableEq α]

/-! ## Entry lists -/

/-- The value of a key in an entry list. -/
def find? (k : α) : List (α × β) → Option β
  | [] => none
  | (k', v) :: rest => if k' = k then some v else find? k rest

/-- The entry list with a value for a key, in its old place or at the end. -/
def put (k : α) (v : β) : List (α × β) → List (α × β)
  | [] => [(k, v)]
  | (k', v') :: rest => if k' = k then (k', v) :: rest else (k', v') :: put k v rest

/-- The entry list without a key. -/
def drop (k : α) : List (α × β) → List (α × β)
  | [] => []
  | (k', v) :: rest => if k' = k then drop k rest else (k', v) :: drop k rest

theorem keys_put (k : α) (v : β) (entries : List (α × β)) :
    (put k v entries).map Prod.fst =
      if k ∈ entries.map Prod.fst then entries.map Prod.fst else entries.map Prod.fst ++ [k] := by
  induction entries with
  | nil => simp [put]
  | cons e rest ih =>
    obtain ⟨k', v'⟩ := e
    by_cases h : k' = k
    · simp [put, h]
    · have h' : ¬k = k' := fun he => h he.symm
      simp only [put, h, if_false, List.map_cons, ih, List.mem_cons, h', false_or]
      split <;> simp

theorem nodup_put (k : α) (v : β) {entries : List (α × β)} (h : (entries.map Prod.fst).Nodup) :
    ((put k v entries).map Prod.fst).Nodup := by
  rw [keys_put]
  split
  · exact h
  · rename_i hk
    rw [List.nodup_append]
    refine ⟨h, by simp, ?_⟩
    intro a ha b hb hab
    simp only [List.mem_singleton] at hb
    exact hk (hb ▸ hab ▸ ha)

theorem keys_drop (k : α) (entries : List (α × β)) :
    (drop k entries).map Prod.fst = (entries.map Prod.fst).filter (· ≠ k) := by
  induction entries with
  | nil => rfl
  | cons e rest ih =>
    obtain ⟨k', v⟩ := e
    by_cases h : k' = k <;> simp [drop, h, ih]

theorem nodup_drop (k : α) {entries : List (α × β)} (h : (entries.map Prod.fst).Nodup) :
    ((drop k entries).map Prod.fst).Nodup := by
  rw [keys_drop]
  exact List.Nodup.sublist List.filter_sublist h

/-! ## The map -/

/-- The map without entries. -/
def empty : OrderedMap α β := ⟨[], List.nodup_nil⟩

/-- The value of a key. -/
def get? (m : OrderedMap α β) (k : α) : Option β := find? k m.entries

/-- Whether a key has a value. -/
def contains (m : OrderedMap α β) (k : α) : Bool := (m.get? k).isSome

/-- The map with a value for a key: an old key keeps its place, a new one comes last. -/
def insert (m : OrderedMap α β) (k : α) (v : β) : OrderedMap α β :=
  ⟨put k v m.entries, nodup_put k v m.nodup⟩

/-- The map without a key. -/
def erase (m : OrderedMap α β) (k : α) : OrderedMap α β :=
  ⟨drop k m.entries, nodup_drop k m.nodup⟩

/-- The map with the value of a key changed, if the key has one. -/
def modify (m : OrderedMap α β) (k : α) (f : β → β) : OrderedMap α β :=
  match m.get? k with
  | some v => m.insert k (f v)
  | none => m

/-- The keys, oldest first. -/
def keys (m : OrderedMap α β) : List α := m.entries.map Prod.fst

/-- The values, in the order of their keys. -/
def values (m : OrderedMap α β) : List β := m.entries.map Prod.snd

/-! ## Reading what was written -/

theorem find?_put (k j : α) (v : β) (entries : List (α × β)) :
    find? j (put k v entries) = if j = k then some v else find? j entries := by
  induction entries with
  | nil =>
    by_cases h : j = k
    · simp [put, find?, h]
    · have h' : ¬k = j := fun he => h he.symm
      simp [put, find?, h, h']
  | cons e rest ih =>
    obtain ⟨k', v'⟩ := e
    by_cases hk : k' = k
    · subst hk
      by_cases hj : j = k'
      · simp [put, find?, hj]
      · have hj' : ¬k' = j := fun he => hj he.symm
        simp [put, find?, hj, hj']
    · by_cases hj : j = k
      · subst hj
        simp [put, find?, hk, ih]
      · simp [put, find?, hk, hj, ih]

theorem find?_drop (k j : α) (entries : List (α × β)) :
    find? j (drop k entries) = if j = k then none else find? j entries := by
  induction entries with
  | nil => simp [drop, find?]
  | cons e rest ih =>
    obtain ⟨k', v'⟩ := e
    by_cases hk : k' = k
    · subst hk
      by_cases hj : j = k'
      · subst hj
        simp [drop, ih]
      · have hj' : ¬k' = j := fun he => hj he.symm
        simp [drop, find?, ih, hj, hj']
    · by_cases hj : j = k
      · subst hj
        simp [drop, find?, hk, ih]
      · simp [drop, find?, hk, hj, ih]

@[simp] theorem get?_empty (k : α) : (empty : OrderedMap α β).get? k = none := rfl

/-- A key reads as it was last written; other keys are as before. -/
theorem get?_insert (m : OrderedMap α β) (k j : α) (v : β) :
    (m.insert k v).get? j = if j = k then some v else m.get? j := find?_put k j v m.entries

/-- An erased key has no value; other keys are as before. -/
theorem get?_erase (m : OrderedMap α β) (k j : α) :
    (m.erase k).get? j = if j = k then none else m.get? j := find?_drop k j m.entries

/-- A key whose value is changed reads as the changed value; other keys are as before. -/
theorem get?_modify (m : OrderedMap α β) (k j : α) (f : β → β) :
    (m.modify k f).get? j = if j = k then (m.get? k).map f else m.get? j := by
  unfold modify
  split
  · rename_i v h
    rw [get?_insert, h]
    rfl
  · rename_i h
    by_cases hj : j = k
    · simp [hj, h]
    · simp [hj]

theorem find?_eq_some_iff {k : α} {v : β} {entries : List (α × β)}
    (hn : (entries.map Prod.fst).Nodup) : find? k entries = some v ↔ (k, v) ∈ entries := by
  induction entries with
  | nil => simp [find?]
  | cons e rest ih =>
    obtain ⟨k', v'⟩ := e
    simp only [List.map_cons, List.nodup_cons] at hn
    by_cases h : k' = k
    · subst h
      have hk : (k', v) ∉ rest := fun hm => hn.1 (List.mem_map.2 ⟨(k', v), hm, rfl⟩)
      simp [find?, hk, eq_comm]
    · have h' : ¬k = k' := fun he => h he.symm
      simp [find?, h, h', ih hn.2]

/-- An entry is a key with the value that it reads as. -/
theorem mem_entries_iff (m : OrderedMap α β) (k : α) (v : β) :
    (k, v) ∈ m.entries ↔ m.get? k = some v := (find?_eq_some_iff m.nodup).symm

/-- The values are what the keys read as. -/
theorem mem_values_iff (m : OrderedMap α β) (v : β) : v ∈ m.values ↔ ∃ k, m.get? k = some v := by
  simp only [values, List.mem_map]
  constructor
  · rintro ⟨⟨k, v'⟩, he, rfl⟩
    exact ⟨k, (mem_entries_iff m k v').1 he⟩
  · rintro ⟨k, hk⟩
    exact ⟨(k, v), (mem_entries_iff m k v).2 hk, rfl⟩

theorem mem_keys_iff (m : OrderedMap α β) (k : α) : k ∈ m.keys ↔ (m.get? k).isSome := by
  obtain ⟨entries, hn⟩ := m
  simp only [keys, get?]
  clear hn
  induction entries with
  | nil => simp [find?]
  | cons e rest ih =>
    obtain ⟨k', v⟩ := e
    by_cases h : k' = k
    · simp [find?, h]
    · have h' : ¬k = k' := fun he => h he.symm
      simp only [List.map_cons, List.mem_cons, h', false_or, find?, h, if_false]
      exact ih

/-- Inserting keeps the order of the keys and puts a new key last. -/
theorem keys_insert (m : OrderedMap α β) (k : α) (v : β) :
    (m.insert k v).keys = if k ∈ m.keys then m.keys else m.keys ++ [k] := keys_put k v m.entries

/-- Erasing keeps the order of the other keys. -/
theorem keys_erase (m : OrderedMap α β) (k : α) : (m.erase k).keys = m.keys.filter (· ≠ k) :=
  keys_drop k m.entries

end OrderedMap

end Ecma
