import Ecma.Proofs.Declaration
import Ecma.Proofs.OwnProperty
import Ecma.Proofs.Stability

/-!
# Symbols as property keys

The key of a symbol ends in the number of the symbol, behind the last number sign, whatever the
description says (`Symbol.key_inj`). A realm never gives a number twice
(`Realm.LeadsTo.nextSymbol_le`), so no two symbols of it share a key; and since no such key is an
index or the length, what is stored under it is seen through no other key
(`Realm.symbol_keys_apart`).
-/

namespace Ecma

open Relation

variable {κ σ : Type}

/-! ## Keys end in numbers -/

/-- Lists are cut alike at the last place of a mark. -/
theorem append_cons_inj_of_not_mem {α : Type} {mark : α} {front front' back back' : List α}
    (hback : mark ∉ back) (hback' : mark ∉ back')
    (h : front ++ mark :: back = front' ++ mark :: back') : front = front' ∧ back = back' := by
  -- if one cut came later than the other, the mark would stand behind the earlier one again
  rcases List.append_eq_append_iff.1 h with ⟨more, rfl, hmore⟩ | ⟨more, rfl, hmore⟩
  · cases more with
    | nil => exact ⟨(List.append_nil front).symm, (List.cons.inj hmore).2⟩
    | cons c more =>
      obtain ⟨-, rfl⟩ := List.cons.inj hmore
      exact absurd (List.mem_append_right more List.mem_cons_self) hback
  · cases more with
    | nil => exact ⟨List.append_nil front', (List.cons.inj hmore).2.symm⟩
    | cons c more =>
      obtain ⟨-, rfl⟩ := List.cons.inj hmore
      exact absurd (List.mem_append_right more List.mem_cons_self) hback'

theorem digit_of_mem_ofNat {n : Nat} {u : UInt16} (h : u ∈ (Text.ofNat n).units) :
    48 ≤ u.toNat ∧ u.toNat ≤ 57 := by
  rw [Text.units_ofNat] at h
  obtain ⟨d, hd, rfl⟩ := List.mem_map.1 h
  have hten := lt_ten_of_mem_digits hd
  rw [toNat_digitUnit hten]
  omega

namespace Symbol

variable {a b : Symbol}

/-- What the key of a symbol has before its last number sign. -/
def keyFront (s : Symbol) : List UInt16 :=
  (Text.ofString "Symbol(").units ++ (s.description.getD .empty).units ++ [41]

theorem units_key (s : Symbol) : s.key.units = s.keyFront ++ 35 :: (Text.ofNat s.id).units := by
  have hmark : (Text.ofString ")#").units = [41, 35] := by decide
  rw [key, Text.units_append, Text.units_append, Text.units_append, hmark, keyFront]
  simp only [List.append_assoc, List.cons_append, List.nil_append]

theorem keyFront_inj :
    a.keyFront = b.keyFront ↔ a.description.getD .empty = b.description.getD .empty := by
  rw [keyFront, keyFront, List.append_left_inj, List.append_right_inj]
  exact ⟨fun h => congrArg Text.mk h, fun h => congrArg Text.units h⟩

/-- Two symbols have the same key exactly if they have the same number and description; a missing
description counts as an empty one. -/
theorem key_inj :
    a.key = b.key ↔ a.id = b.id ∧ a.description.getD .empty = b.description.getD .empty := by
  have hmark : ∀ n, (35 : UInt16) ∉ (Text.ofNat n).units := fun n hmem =>
    absurd (digit_of_mem_ofNat hmem).1 (by decide)
  constructor
  · intro h
    have hunits := congrArg Text.units h
    rw [units_key, units_key] at hunits
    obtain ⟨hfront, hnumber⟩ := append_cons_inj_of_not_mem (hmark a.id) (hmark b.id) hunits
    exact ⟨Text.ofNat_injective (congrArg Text.mk hnumber), keyFront_inj.1 hfront⟩
  · rintro ⟨hid, hdescription⟩
    rw [key, key, hid, hdescription]

theorem key_ne (h : a.id ≠ b.id) : a.key ≠ b.key := fun hkey => h (key_inj.1 hkey).1

/-! ## No such key belongs to the elements -/

theorem head?_units_key (s : Symbol) : s.key.units.head? = some 83 := by
  have hfirst : (Text.ofString "Symbol(").units = 83 :: (Text.ofString "ymbol(").units := by decide
  rw [units_key, keyFront, hfirst]
  rfl

theorem arrayIndex?_key (s : Symbol) : s.key.arrayIndex? = none := by
  cases hi : s.key.arrayIndex? with
  | none => rfl
  | some n =>
    have hfirst := s.head?_units_key
    rw [(Text.arrayIndex?_eq_some_iff.1 hi).2] at hfirst
    exact absurd (digit_of_mem_ofNat (List.mem_of_mem_head? hfirst)).2 (by decide)

theorem key_ne_lengthKey (s : Symbol) : s.key ≠ lengthKey := by
  intro h
  have hfirst := s.head?_units_key
  rw [h] at hfirst
  exact absurd hfirst (by decide)

end Symbol

/-! ## Numbers are given once -/

namespace Realm

variable {allowed : Request κ → Prop} {r r' : Realm κ} {o p : ObjectId} {key k : Text} {v : Value}

@[simp] theorem nextSymbol_sync (r : Realm κ) (data : Object κ) (key : Text) :
    (r.sync data key).nextSymbol = r.nextSymbol := by
  unfold sync
  split <;> rfl

@[simp] theorem nextSymbol_unlink (r : Realm κ) (data : Object κ) (key : Text) :
    (r.unlink data key).nextSymbol = r.nextSymbol := by
  unfold unlink
  split <;> rfl

theorem nextSymbol_of_assign (h : r.assign o key v = .ok (.stored r')) :
    r'.nextSymbol = r.nextSymbol := by
  obtain ⟨data, data', -, -, rfl⟩ := assign_eq_stored h
  rw [nextSymbol_sync]
  rfl

theorem nextSymbol_of_settles {req : Request κ} {name : String} {f : Option Fault}
    (h : r.Settles req name v f r') : r'.nextSymbol = r.nextSymbol := by
  cases h with
  | adopted hp hw hl hd hown hr => rcases hr with rfl | ⟨u, -, rfl⟩ <;> rfl
  | _ => rfl

/-- A step takes at most the number of the next symbol. -/
theorem Step.nextSymbol_cases (h : Step allowed r r') :
    r'.nextSymbol = r.nextSymbol ∨ r'.nextSymbol = r.nextSymbol + 1 := by
  cases h with
  | createSymbol ha => exact Or.inr rfl
  | assign h => exact Or.inl (nextSymbol_of_assign h)
  | assignName h =>
    obtain ⟨s, -, hs⟩ := assignIn_eq_stored h
    cases hs with
    | lexical hb ha => exact Or.inl rfl
    | var hb ha hl => exact Or.inl rfl
    | property hl ha => exact Or.inl (nextSymbol_of_assign ha)
  | define ha h =>
    obtain ⟨data, data', -, -, rfl⟩ := define_eq_ok h
    exact Or.inl (nextSymbol_sync _ data' _)
  | delete ha h =>
    rcases delete_eq_ok h with rfl | ⟨data, data', -, ⟨-, rfl⟩ | ⟨-, rfl⟩⟩
    · exact Or.inl rfl
    · exact Or.inl (nextSymbol_unlink _ data' _)
    · exact Or.inl rfl
  | setPrototype ha h =>
    rcases setPrototype_eq_ok h with rfl | ⟨data, -, -, rfl⟩ <;> exact Or.inl rfl
  | preventExtensions ha h =>
    obtain ⟨data, -, rfl⟩ := preventExtensions_eq_ok h
    exact Or.inl rfl
  | declare ha => exact Or.inl (nextSymbol_of_settles (settles_declare r _ _ _ _))
  | setInScope ha => exact Or.inl (nextSymbol_of_settles (settles_setInScope r _ _ _))
  | declareVar ha => exact Or.inl (nextSymbol_of_settles (settles_declareVar r _ _ _ _))
  | hoistFunction ha => exact Or.inl (nextSymbol_of_settles (settles_hoistFunction r _ _ _))
  | link ha =>
    unfold Realm.link
    dsimp only
    split <;> exact Or.inl rfl
  -- all other steps leave the number alone
  | _ => exact Or.inl rfl

/-- The number of the next symbol never goes back. -/
theorem LeadsTo.nextSymbol_le (h : LeadsTo allowed r r') : r.nextSymbol ≤ r'.nextSymbol := by
  have hsteps := h.steps
  clear h
  induction hsteps with
  | refl => exact Nat.le_refl _
  | tail _ hstep ih =>
    have hnext := hstep.nextSymbol_cases
    omega

/-- Whatever happens between them, two symbols of a realm have different numbers. -/
theorem createSymbol_id_lt {d : Option Text} (h : LeadsTo allowed (r.createSymbol d).2 r')
    (d' : Option Text) : (r.createSymbol d).1.id < (r'.createSymbol d').1.id := h.nextSymbol_le

/-! ## Work under other keys -/

/-- An assignment, a definition or a deletion under a key of an object, or a property that
enumeration does not show put there. -/
inductive WorksUnder (r : Realm κ) (o : ObjectId) (key : Text) : Realm κ → Prop where
  | revised {r' : Realm κ} (h : r.Revises o key r') : WorksUnder r o key r'
  | hidden (v : Value) : WorksUnder r o key (r.modifyObject o (·.putHidden key v))

end Realm

namespace Object

variable {o o' : Object κ} {key k : Text}

/-- What a lookup under a key sees of an object. -/
def seen (o : Object κ) (k : Text) : Option ObjectId × Option Property := (o.prototype, o.own? k)

theorem seen_putProperty (o : Object κ) (hk : k ≠ key) (p : Property) :
    (o.putProperty key p).seen k = o.seen k := by
  rw [seen, own?_putProperty, if_neg hk]
  rfl

section

variable (hindex : k.arrayIndex? = none) (hlength : k ≠ lengthKey)
include hindex hlength

/-- Under a key with a name, the elements are not seen. -/
theorem seen_withElements (o : Object κ) (elements : Array Value) :
    ({ o with elements := some elements } : Object κ).seen k = o.seen k := by
  rw [seen, seen, own?, own?, elementProperty?_of_name hindex hlength,
    elementProperty?_of_name hindex hlength]

theorem seen_eraseProperty (o : Object κ) (hk : k ≠ key) :
    ({ o with properties := o.properties.erase key } : Object κ).seen k = o.seen k := by
  rw [seen, seen, own?, own?, elementProperty?_of_name hindex hlength,
    elementProperty?_of_name hindex hlength, OrderedMap.get?_erase, if_neg hk]

theorem seen_of_assign {v : Value} (hk : k ≠ key) (h : o.assign key v = .ok (.object o')) :
    o'.seen k = o.seen k := by
  rcases assign_eq_object h with ⟨p, -, rfl⟩ | ⟨-, elements, rfl, -⟩
  · exact seen_putProperty o hk p
  · exact seen_withElements hindex hlength o elements

theorem seen_of_define {d : Descriptor} (hk : k ≠ key) (h : o.define key d = .ok o') :
    o'.seen k = o.seen k := by
  rcases define_eq_ok h with rfl | ⟨-, elements, rfl, -⟩
  · exact seen_putProperty o hk _
  · exact seen_withElements hindex hlength o elements

theorem seen_of_delete (hk : k ≠ key)
    (h : o.delete key = .property o' ∨ o.delete key = .element o') : o'.seen k = o.seen k := by
  rcases h with h | h
  · rw [delete_eq_property h]
    exact seen_eraseProperty hindex hlength o hk
  · rcases delete_eq_element h with rfl | ⟨-, elements, rfl, -⟩
    · rfl
    · exact seen_withElements hindex hlength o elements

end

end Object

namespace Realm

variable {r r' : Realm κ} {o p : ObjectId} {key k : Text}

/-- What a lookup under a key sees of the object in a cell. -/
def seen (r : Realm κ) (k : Text) (p : ObjectId) : Option (Option ObjectId × Option Property) :=
  (r.heap.get? p).map (·.seen k)

theorem seen_of_replace {data data' : Object κ} (hd : r.heap.get? o = some data)
    (heap : r'.heap = r.heap.replace o data') (hseen : data'.seen k = data.seen k) (p : ObjectId) :
    r'.seen k p = r.seen k p := by
  rw [seen, seen, heap, Heap.get?_replace]
  by_cases hp : p = o
  · rw [if_pos hp, hp, hd]
    exact congrArg some hseen
  · rw [if_neg hp]

/-- Which property is found depends on what is seen of the objects. -/
theorem property?_congr (ho : r'.options = r.options) (hseen : ∀ p, r'.seen k p = r.seen k p)
    (p : ObjectId) : r'.property? p k = r.property? p k := by
  have hmap : ∀ found : Except Fault (Option Property), found.map id = found := fun found => by
    cases found <;> rfl
  have hfind := findProperty_congr (fun _ h => h) ho hseen (r.options.maxPrototypeDepth + 1) p
  rw [property?, property?, ho, ← hmap (r'.findProperty _ _ _), ← hmap (r.findProperty _ _ _)]
  exact hfind

theorem ownProperty?_of_seen (hseen : r'.seen k p = r.seen k p) :
    r'.ownProperty? p k = r.ownProperty? p k := by
  have hown : ∀ r : Realm κ, r.ownProperty? p k =
      ((r.seen k p).map Prod.snd).elim (.error (.collected p)) .ok := by
    intro r
    rw [ownProperty?, object, seen]
    cases r.heap.get? p <;> rfl
  rw [hown, hown, hseen]

namespace WorksUnder

theorem scopeStep (h : r.WorksUnder o key r') : ScopeStep (fun _ => True) r r' := by
  cases h with
  | revised h =>
    cases h with
    | assigned h => exact .assign h
    | defined h =>
      obtain ⟨data, data', -, -, rfl⟩ := define_eq_ok h
      exact .sync r o data' key
    | deleted h => exact .delete h
    | unchanged => exact .kept rfl rfl
  | hidden v => exact .kept rfl rfl

/-- Under another key with a name, nothing else is seen than before. -/
theorem seen_eq (h : r.WorksUnder o key r') (hk : k ≠ key) (hindex : k.arrayIndex? = none)
    (hlength : k ≠ lengthKey) (p : ObjectId) : r'.seen k p = r.seen k p := by
  cases h with
  | revised h =>
    cases h with
    | assigned h =>
      obtain ⟨data, data', hd, ha, rfl⟩ := assign_eq_stored h
      exact seen_of_replace hd (heap_sync _ _ _) (Object.seen_of_assign hindex hlength hk ha) p
    | defined h =>
      obtain ⟨data, data', hd, hdef, rfl⟩ := define_eq_ok h
      exact seen_of_replace hd (heap_sync _ _ _) (Object.seen_of_define hindex hlength hk hdef) p
    | deleted h =>
      rcases delete_eq_ok h with rfl | ⟨data, data', hd, ⟨hdel, rfl⟩ | ⟨hdel, rfl⟩⟩
      · rfl
      · have hseen := Object.seen_of_delete hindex hlength hk (Or.inl hdel)
        exact seen_of_replace hd (heap_unlink _ _ _) hseen p
      · have hseen := Object.seen_of_delete hindex hlength hk (Or.inr hdel)
        exact seen_of_replace hd rfl hseen p
    | unchanged => rfl
  | hidden v =>
    rw [seen, seen, modifyObject, heap_withHeap, Heap.get?_modify]
    split
    · rename_i hp
      rw [hp, Option.map_map]
      exact congrArg (Option.map · _) (funext fun data => Object.seen_putProperty data hk _)
    · rfl

end WorksUnder

/-! ## Symbols -/

/-- Work under the keys of symbols other than a given one, on any objects. -/
def WorksBeside (b : Symbol) (r r' : Realm κ) : Prop :=
  ∃ (a : Symbol) (o : ObjectId), a.id ≠ b.id ∧ r.WorksUnder o a.key r'

theorem seen_of_worksBeside {b : Symbol} (h : ReflTransGen (WorksBeside b) r r') :
    r'.options = r.options ∧ ∀ p, r'.seen b.key p = r.seen b.key p := by
  induction h with
  | refl => exact ⟨rfl, fun p => rfl⟩
  | tail _ hstep ih =>
    obtain ⟨a, o, hne, hworks⟩ := hstep
    refine ⟨hworks.scopeStep.options_eq.trans ih.1, fun p => ?_⟩
    have hkey : b.key ≠ a.key := Symbol.key_ne hne.symm
    exact (hworks.seen_eq hkey b.arrayIndex?_key b.key_ne_lengthKey p).trans (ih.2 p)

/-- Symbols with the same key have the same number, whatever their descriptions are, and a symbol
that is used as a property key is converted to its key. Two symbols that a realm makes, one after
the other, have different keys, whatever happens in between. However often properties are assigned,
defined and deleted under the keys of other symbols, all objects show under the key of a symbol what
they showed before, as their own and as inherited properties. -/
theorem symbol_keys_apart :
    (∀ a b : Symbol, a.key = b.key → a.id = b.id) ∧
    (∀ (e : Engine κ σ) (w : World κ σ) (a : Symbol),
      e.toPropertyKey (.symbol a) w = (.done a.key, w)) ∧
    (∀ (r r' : Realm κ) (d d' : Option Text), LeadsTo (fun _ => True) (r.createSymbol d).2 r' →
      (r.createSymbol d).1.key ≠ (r'.createSymbol d').1.key) ∧
    ∀ (b : Symbol) (r r' : Realm κ), ReflTransGen (WorksBeside b) r r' → ∀ p,
      r'.ownProperty? p b.key = r.ownProperty? p b.key ∧
        r'.property? p b.key = r.property? p b.key := by
  refine ⟨fun a b h => (Symbol.key_inj.1 h).1, fun e w a => rfl, fun r r' d d' h => ?_,
    fun b r r' h p => ?_⟩
  · exact Symbol.key_ne (Nat.ne_of_lt (createSymbol_id_lt h d'))
  · obtain ⟨hoptions, hseen⟩ := seen_of_worksBeside h
    exact ⟨ownProperty?_of_seen (hseen p), property?_congr hoptions hseen p⟩

/-- The description of the first symbol ends like the key of the second one. A property under the
second key stays while one under the first key comes and goes. -/
theorem symbol_keys_apart_imitated :
    let r := ((fresh {} : Realm Unit).createObject).2
    let a := (r.createSymbol (some (.ofString "x)#2"))).1
    let r₁ := (r.createSymbol (some (.ofString "x)#2"))).2
    let b := (r₁.createSymbol (some (.ofString "x"))).1
    let r₂ := (r₁.createSymbol (some (.ofString "x"))).2.answer
      (.define ⟨10⟩ b.key { value := some .null })
    let r₃ := r₂.answer
      (.define ⟨10⟩ a.key { value := some (.boolean true), configurable := some true })
    let r₄ := r₃.answer (.delete ⟨10⟩ a.key)
    a.key = .ofString "Symbol(x)#2)#1" ∧ b.key = .ofString "Symbol(x)#2" ∧ a.key ≠ b.key ∧
      r₃.ownProperty? ⟨10⟩ a.key = .ok (some (.data (.boolean true) false false true)) ∧
      r₄.ownProperty? ⟨10⟩ a.key = .ok none ∧
      r₄.ownProperty? ⟨10⟩ b.key = .ok (some (.data .null false false false)) := by
  intro r a r₁ b r₂ r₃ r₄
  obtain ⟨-, -, hfresh, hbeside⟩ := symbol_keys_apart (κ := Unit) (σ := Unit)
  have hne : a.key ≠ b.key := hfresh r r₁ _ _ .refl
  have hid : a.id ≠ b.id := by decide
  have hr₃ : r₂.WorksUnder ⟨10⟩ a.key r₃ :=
    .revised (revises_define (Library.silent.engine 1) ⟨r₂, ()⟩ ⟨10⟩ a.key _)
  have hr₄ : r₃.WorksUnder ⟨10⟩ a.key r₄ :=
    .revised (revises_delete (Library.silent.engine 1) ⟨r₃, ()⟩ ⟨10⟩ a.key)
  have hworks : ReflTransGen (WorksBeside b) r₂ r₄ :=
    (ReflTransGen.single ⟨a, ⟨10⟩, hid, hr₃⟩).tail ⟨a, ⟨10⟩, hid, hr₄⟩
  refine ⟨by decide +kernel, by decide +kernel, hne, by decide +kernel, by decide +kernel, ?_⟩
  rw [(hbeside b r₂ r₄ hworks ⟨10⟩).1]
  decide +kernel

end Realm

end Ecma
