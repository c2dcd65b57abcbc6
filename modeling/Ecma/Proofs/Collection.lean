import Ecma.Realm.Collect
import Mathlib.Logic.Relation
import Mathlib.Tactic.Set
import Mathlib.Tactic.ByContra

/-!
# A collection keeps exactly what can be reached

`Realm.Refers` says, reference by reference, what an object or a scope refers to, and
`Realm.Reaches` is its closure from the roots. The worklist of `Marks.visitAll` is related to that
closure in two halves: whatever it marks can be reached, and the set it marks is closed under
references once nothing waits to be visited. The main result `collect_keeps_exactly_reached` reads
the outcome of a collection off the marks.
-/

namespace Ecma

open Relation

variable {κ : Type}

/-! ## References -/

/-- The references of an object: to what it inherits from, to the values and accessors of its
properties, to its elements and slots, to what its two behaviours report, and to the scope that it
stands in for. -/
inductive Object.RefersTo (o : Object κ) : Node → Prop where
  | prototype {p : ObjectId} (h : o.prototype = some p) : RefersTo o (.object p)
  | value {key : Text} {p : ObjectId} {w e c : Bool}
      (h : o.properties.get? key = some (.data (.object p) w e c)) : RefersTo o (.object p)
  | getter {key : Text} {p : ObjectId} {set : Option Value} {e c : Bool}
      (h : o.properties.get? key = some (.accessor (some (.object p)) set e c)) :
      RefersTo o (.object p)
  | setter {key : Text} {p : ObjectId} {get : Option Value} {e c : Bool}
      (h : o.properties.get? key = some (.accessor get (some (.object p)) e c)) :
      RefersTo o (.object p)
  | element {elements : Array Value} {p : ObjectId} (h : o.elements = some elements)
      (hp : Value.object p ∈ elements) : RefersTo o (.object p)
  | slot {name : String} {p : ObjectId} (h : o.slots.get? name = some (.object p)) :
      RefersTo o (.object p)
  | callCapture {f : Callable κ} {p : ObjectId} (h : o.callable = some f)
      (hp : Value.object p ∈ f.captures) : RefersTo o (.object p)
  | callScope {f : Callable κ} {s : ScopeId} (h : o.callable = some f) (hs : s ∈ f.scopes) :
      RefersTo o (.scope s)
  | constructCapture {f : Callable κ} {p : ObjectId} (h : o.constructs = some f)
      (hp : Value.object p ∈ f.captures) : RefersTo o (.object p)
  | constructScope {f : Callable κ} {s : ScopeId} (h : o.constructs = some f) (hs : s ∈ f.scopes) :
      RefersTo o (.scope s)
  | standsFor {s : ScopeId} (h : o.scope = some s) : RefersTo o (.scope s)

/-- The references of a scope: to the values of its names, to the object that stands in for it, and
to the scope around it. -/
inductive Scope.RefersTo (s : Scope) : Node → Prop where
  | lexical {name : String} {b : Binding} {p : ObjectId} (h : s.lexical.get? name = some b)
      (hb : b.value = .object p) : RefersTo s (.object p)
  | var {name : String} {b : Binding} {p : ObjectId} (h : s.vars.get? name = some b)
      (hb : b.value = .object p) : RefersTo s (.object p)
  | linked {p : ObjectId} (h : s.linked = some p) : RefersTo s (.object p)
  | parent {p : ScopeId} (h : s.outer.head? = some p) : RefersTo s (.scope p)

namespace Realm

/-- The references between the nodes of a realm. Handles that lead nowhere refer to nothing. -/
inductive Refers (r : Realm κ) : Node → Node → Prop where
  | object {o : ObjectId} {data : Object κ} {n : Node} (h : r.heap.get? o = some data)
      (hn : data.RefersTo n) : Refers r (.object o) n
  | scope {s : ScopeId} {scope : Scope} {n : Node} (h : r.scopes[s.index]? = some scope)
      (hn : scope.RefersTo n) : Refers r (.scope s) n

/-- What a collection with extra scopes and values starts from. -/
inductive IsRoot (r : Realm κ) (scopes : List ScopeId) (values : List Value) : Node → Prop where
  | globalScope : IsRoot r scopes values (.scope r.globalScope)
  | globalObject : IsRoot r scopes values (.object r.globalObject)
  | prototype (i : Intrinsic) : IsRoot r scopes values (.object i.id)
  | extraScope {s : ScopeId} (h : s ∈ scopes) : IsRoot r scopes values (.scope s)
  | extraValue {o : ObjectId} (h : Value.object o ∈ values) : IsRoot r scopes values (.object o)

/-- A node can be reached from a root along references. -/
def Reaches (r : Realm κ) (scopes : List ScopeId) (values : List Value) (n : Node) : Prop :=
  ∃ root, r.IsRoot scopes values root ∧ ReflTransGen r.Refers root n

end Realm

/-! ## The successor lists hold the references -/

theorem Value.node?_eq_some_iff {v : Value} {n : Node} :
    v.node? = some n ↔ ∃ o, v = .object o ∧ n = .object o := by
  cases v <;> simp [Value.node?, eq_comm]

theorem mem_nodes_iff {values : List Value} {n : Node} :
    n ∈ values.filterMap Value.node? ↔ ∃ o, Value.object o ∈ values ∧ n = .object o := by
  simp only [List.mem_filterMap, Value.node?_eq_some_iff]
  constructor
  · rintro ⟨v, hv, o, rfl, rfl⟩
    exact ⟨o, hv, rfl⟩
  · rintro ⟨o, ho, rfl⟩
    exact ⟨_, ho, o, rfl, rfl⟩

theorem Property.mem_references_iff {p : Property} {v : Value} :
    v ∈ p.references ↔ (∃ w e c, p = .data v w e c) ∨ (∃ set e c, p = .accessor (some v) set e c) ∨
      ∃ get e c, p = .accessor get (some v) e c := by
  cases p with
  | data u w e c => simp [references, eq_comm]
  | accessor g s e c => simp [references]

/-- A value that an object holds is one of its property values or accessors, its elements, its
slots, or what its two behaviours report. -/
theorem Object.mem_heldValues_iff {o : Object κ} {v : Value} :
    v ∈ o.heldValues ↔ (∃ key p, o.properties.get? key = some p ∧ v ∈ p.references) ∨
      (∃ elements, o.elements = some elements ∧ v ∈ elements) ∨
      (∃ name, o.slots.get? name = some v) ∨ (∃ f, o.callable = some f ∧ v ∈ f.captures) ∨
      ∃ f, o.constructs = some f ∧ v ∈ f.captures := by
  have hp : (∃ p ∈ o.properties.values, v ∈ p.references) ↔
      ∃ key p, o.properties.get? key = some p ∧ v ∈ p.references := by
    constructor
    · rintro ⟨p, hp, hv⟩
      obtain ⟨key, hk⟩ := (o.properties.mem_values_iff p).1 hp
      exact ⟨key, p, hk, hv⟩
    · rintro ⟨key, p, hk, hv⟩
      exact ⟨p, (o.properties.mem_values_iff p).2 ⟨key, hk⟩, hv⟩
  simp only [heldValues, List.mem_append, List.mem_flatMap, hp, o.slots.mem_values_iff, or_assoc]
  cases o.elements <;> cases o.callable <;> cases o.constructs <;> simp

theorem Object.mem_heldScopes_iff {o : Object κ} {s : ScopeId} :
    s ∈ o.heldScopes ↔ (∃ f, o.callable = some f ∧ s ∈ f.scopes) ∨
      (∃ f, o.constructs = some f ∧ s ∈ f.scopes) ∨ o.scope = some s := by
  simp only [heldScopes, List.mem_append, or_assoc]
  cases o.callable <;> cases o.constructs <;> cases o.scope <;> simp [eq_comm]

/-- The successors of an object are its references. -/
theorem Object.mem_successors_iff {o : Object κ} {n : Node} : n ∈ o.successors ↔ o.RefersTo n := by
  simp only [successors, List.mem_append, List.mem_map, Option.mem_toList, mem_nodes_iff,
    mem_heldValues_iff, mem_heldScopes_iff, Property.mem_references_iff]
  constructor
  · rintro ((⟨p, hp, rfl⟩ | ⟨p, hp, rfl⟩) | ⟨s, hs, rfl⟩)
    · exact .prototype hp
    · rcases hp with ⟨key, q, hq, hv⟩ | ⟨es, he, hv⟩ | ⟨name, hv⟩ | ⟨f, hf, hv⟩ | ⟨f, hf, hv⟩
      · rcases hv with ⟨w, e, c, rfl⟩ | ⟨set, e, c, rfl⟩ | ⟨get, e, c, rfl⟩
        · exact .value hq
        · exact .getter hq
        · exact .setter hq
      · exact .element he hv
      · exact .slot hv
      · exact .callCapture hf hv
      · exact .constructCapture hf hv
    · rcases hs with ⟨f, hf, hs⟩ | ⟨f, hf, hs⟩ | hs
      · exact .callScope hf hs
      · exact .constructScope hf hs
      · exact .standsFor hs
  · rintro (h | h | h | h | ⟨h, hv⟩ | h | ⟨h, hv⟩ | ⟨h, hs⟩ | ⟨h, hv⟩ | ⟨h, hs⟩ | h)
    · exact Or.inl (Or.inl ⟨_, h, rfl⟩)
    · exact Or.inl (Or.inr ⟨_, Or.inl ⟨_, _, h, Or.inl ⟨_, _, _, rfl⟩⟩, rfl⟩)
    · exact Or.inl (Or.inr ⟨_, Or.inl ⟨_, _, h, Or.inr (Or.inl ⟨_, _, _, rfl⟩)⟩, rfl⟩)
    · exact Or.inl (Or.inr ⟨_, Or.inl ⟨_, _, h, Or.inr (Or.inr ⟨_, _, _, rfl⟩)⟩, rfl⟩)
    · exact Or.inl (Or.inr ⟨_, Or.inr (Or.inl ⟨_, h, hv⟩), rfl⟩)
    · exact Or.inl (Or.inr ⟨_, Or.inr (Or.inr (Or.inl ⟨_, h⟩)), rfl⟩)
    · exact Or.inl (Or.inr ⟨_, Or.inr (Or.inr (Or.inr (Or.inl ⟨_, h, hv⟩))), rfl⟩)
    · exact Or.inr ⟨_, Or.inl ⟨_, h, hs⟩, rfl⟩
    · exact Or.inl (Or.inr ⟨_, Or.inr (Or.inr (Or.inr (Or.inr ⟨_, h, hv⟩))), rfl⟩)
    · exact Or.inr ⟨_, Or.inr (Or.inl ⟨_, h, hs⟩), rfl⟩
    · exact Or.inr ⟨_, Or.inr (Or.inr h), rfl⟩

theorem Scope.mem_references_iff {s : Scope} {v : Value} :
    v ∈ s.references ↔ (∃ name b, s.lexical.get? name = some b ∧ b.value = v) ∨
      ∃ name b, s.vars.get? name = some b ∧ b.value = v := by
  simp only [references, List.mem_map, List.mem_append, s.lexical.mem_values_iff,
    s.vars.mem_values_iff]
  constructor
  · rintro ⟨b, ⟨name, hb⟩ | ⟨name, hb⟩, rfl⟩
    · exact Or.inl ⟨name, b, hb, rfl⟩
    · exact Or.inr ⟨name, b, hb, rfl⟩
  · rintro (⟨name, b, hb, rfl⟩ | ⟨name, b, hb, rfl⟩)
    · exact ⟨b, Or.inl ⟨name, hb⟩, rfl⟩
    · exact ⟨b, Or.inr ⟨name, hb⟩, rfl⟩

/-- The successors of a scope are its references. -/
theorem Scope.mem_successors_iff {s : Scope} {n : Node} : n ∈ s.successors ↔ s.RefersTo n := by
  simp only [successors, List.mem_append, List.mem_map, Option.mem_toList, mem_nodes_iff,
    mem_references_iff]
  constructor
  · rintro ((⟨p, ⟨name, b, hb, hv⟩ | ⟨name, b, hb, hv⟩, rfl⟩ | ⟨p, hp, rfl⟩) | ⟨p, hp, rfl⟩)
    · exact .lexical hb hv
    · exact .var hb hv
    · exact .linked hp
    · exact .parent hp
  · rintro (⟨h, hb⟩ | ⟨h, hb⟩ | h | h)
    · exact Or.inl (Or.inl ⟨_, Or.inl ⟨_, _, h, hb⟩, rfl⟩)
    · exact Or.inl (Or.inl ⟨_, Or.inr ⟨_, _, h, hb⟩, rfl⟩)
    · exact Or.inl (Or.inr ⟨_, h, rfl⟩)
    · exact Or.inr ⟨_, h, rfl⟩

namespace Realm

/-- The successor lists of a realm hold exactly its references. -/
theorem mem_successors_iff {r : Realm κ} {m n : Node} : n ∈ r.successors m ↔ r.Refers m n := by
  constructor
  · intro h
    cases m with
    | object o =>
      cases hd : r.heap.get? o with
      | none => simp [successors, hd] at h
      | some data =>
        simp only [successors, hd, Option.map_some, Option.getD_some] at h
        exact .object hd (Object.mem_successors_iff.1 h)
    | scope s =>
      cases hs : r.scopes[s.index]? with
      | none => simp [successors, hs] at h
      | some scope =>
        simp only [successors, hs, Option.map_some, Option.getD_some] at h
        exact .scope hs (Scope.mem_successors_iff.1 h)
  · rintro (⟨h, hn⟩ | ⟨h, hn⟩)
    · simpa [successors, h] using Object.mem_successors_iff.2 hn
    · simpa [successors, h] using Scope.mem_successors_iff.2 hn

theorem mem_start_iff {r : Realm κ} {scopes : List ScopeId} {values : List Value} {n : Node} :
    n ∈ r.roots ++ scopes.map Node.scope ++ values.filterMap Value.node? ↔
      r.IsRoot scopes values n := by
  simp only [roots, List.mem_append, List.mem_cons, List.mem_map, mem_nodes_iff]
  constructor
  · rintro (((rfl | rfl | ⟨i, -, rfl⟩) | ⟨s, hs, rfl⟩) | ⟨o, ho, rfl⟩)
    · exact .globalScope
    · exact .globalObject
    · exact .prototype i
    · exact .extraScope hs
    · exact .extraValue ho
  · rintro (_ | _ | i | hs | ho)
    · exact Or.inl (Or.inl (Or.inl rfl))
    · exact Or.inl (Or.inl (Or.inr (Or.inl rfl)))
    · exact Or.inl (Or.inl (Or.inr (Or.inr ⟨i, Intrinsic.mem_all i, rfl⟩)))
    · exact Or.inl (Or.inr ⟨_, hs, rfl⟩)
    · exact Or.inr ⟨_, ho, rfl⟩

end Realm

/-! ## Marks -/

namespace Marks

/-- The node exists: there is a place for its mark. -/
def Fits (m : Marks) : Node → Prop
  | .object o => o.index < m.objects.size
  | .scope s => s.index < m.scopes.size

/-- The node has been visited. -/
def Has (m : Marks) : Node → Prop
  | .object o => m.objects[o.index]? = some true
  | .scope s => m.scopes[s.index]? = some true

theorem set?_eq_none_iff {marks : Array Bool} {i : Nat} :
    set? marks i = none ↔ i < marks.size → marks[i]? = some true := by
  unfold set?
  split
  · rename_i hi
    cases hm : marks[i] <;> simp [hi, hm]
  · rename_i hi
    simp [hi]

theorem set?_eq_some {marks marks' : Array Bool} {i : Nat} (h : set? marks i = some marks') :
    marks'.size = marks.size ∧ ∀ j, marks'[j]? = some true ↔ j = i ∨ marks[j]? = some true := by
  unfold set? at h
  split at h
  · rename_i hi
    split at h
    · simp at h
    · simp only [Option.some.injEq] at h
      subst h
      refine ⟨by simp, fun j => ?_⟩
      rw [Array.getElem?_set]
      by_cases hj : i = j
      · simp [hj]
      · have hj' : ¬j = i := fun e => hj e.symm
        simp [hj, hj']
  · simp at h

/-- A node is passed over if it does not exist or has been visited. -/
theorem visit?_eq_none_iff {m : Marks} {n : Node} : m.visit? n = none ↔ (m.Fits n → m.Has n) := by
  cases n <;> simp [visit?, set?_eq_none_iff, Fits, Has]

/-- A first visit marks the node and nothing else. -/
theorem visit?_eq_some {m m' : Marks} {n : Node} (h : m.visit? n = some m') :
    (∀ k, m'.Fits k ↔ m.Fits k) ∧ ∀ k, m'.Has k ↔ k = n ∨ m.Has k := by
  cases n with
  | object o =>
    obtain ⟨objects, ho, rfl⟩ := Option.map_eq_some_iff.1 h
    obtain ⟨hsize, hget⟩ := set?_eq_some ho
    refine ⟨fun k => ?_, fun k => ?_⟩
    · cases k <;> simp [Fits, hsize]
    · cases k with
      | object p =>
        have hp : p.index = o.index ↔ p = o := by cases p; cases o; simp
        simp [Has, hget, hp]
      | scope s => simp [Has]
  | scope s =>
    obtain ⟨scopes, hs, rfl⟩ := Option.map_eq_some_iff.1 h
    obtain ⟨hsize, hget⟩ := set?_eq_some hs
    refine ⟨fun k => ?_, fun k => ?_⟩
    · cases k <;> simp [Fits, hsize]
    · cases k with
      | object p => simp [Has]
      | scope t =>
        have ht : t.index = s.index ↔ t = s := by cases t; cases s; simp
        simp [Has, hget, ht]

variable {next : Node → List Node}

theorem fits_visitAll (m : Marks) (waiting : List Node) (k : Node) :
    (visitAll next m waiting).Fits k ↔ m.Fits k := by
  fun_induction visitAll next m waiting with
  | case1 => rfl
  | case2 m n waiting h ih => exact ih
  | case3 m n waiting m' h ih => rw [ih, (visit?_eq_some h).1 k]

/-- What the walk marks stays within every set that is closed under successors. -/
theorem has_visitAll_sound {P : Node → Prop} (hnext : ∀ n, P n → ∀ k ∈ next n, P k) {m : Marks}
    {waiting : List Node} (hm : ∀ k, m.Has k → P k) (hw : ∀ k ∈ waiting, P k) {k : Node}
    (h : (visitAll next m waiting).Has k) : P k := by
  fun_induction visitAll next m waiting with
  | case1 => exact hm k h
  | case2 m n waiting hv ih => exact ih hm (fun j hj => hw j (List.mem_cons_of_mem _ hj)) h
  | case3 m n waiting m' hv ih =>
    have hn : P n := hw n List.mem_cons_self
    refine ih (fun j hj => ?_) (fun j hj => ?_) h
    · rcases ((visit?_eq_some hv).2 j).1 hj with rfl | hj
      · exact hn
      · exact hm j hj
    · rcases List.mem_append.1 hj with hj | hj
      · exact hnext n hn j hj
      · exact hw j (List.mem_cons_of_mem _ hj)

/-- The invariant of the walk: each successor of a visited node has been visited, waits, or does
not exist. -/
def Closed (next : Node → List Node) (m : Marks) (waiting : List Node) : Prop :=
  ∀ n, m.Has n → ∀ k ∈ next n, m.Fits k → m.Has k ∨ k ∈ waiting

/-- Passing over a node keeps the invariant. -/
theorem Closed.skip {m : Marks} {n : Node} {waiting : List Node} (h : Closed next m (n :: waiting))
    (hv : m.visit? n = none) : Closed next m waiting := by
  intro j hj k hk hf
  rcases h j hj k hk hf with hh | hh
  · exact Or.inl hh
  · rcases List.mem_cons.1 hh with rfl | hh
    · exact Or.inl (visit?_eq_none_iff.1 hv hf)
    · exact Or.inr hh

/-- Visiting a node and queueing its successors keeps the invariant. -/
theorem Closed.visit {m m' : Marks} {n : Node} {waiting : List Node}
    (h : Closed next m (n :: waiting)) (hv : m.visit? n = some m') :
    Closed next m' (next n ++ waiting) := by
  obtain ⟨hfits, hhas⟩ := visit?_eq_some hv
  intro j hj k hk hf
  rcases (hhas j).1 hj with rfl | hj
  · exact Or.inr (List.mem_append_left _ hk)
  · rcases h j hj k hk ((hfits k).1 hf) with hh | hh
    · exact Or.inl ((hhas k).2 (Or.inr hh))
    · rcases List.mem_cons.1 hh with rfl | hh
      · exact Or.inl ((hhas k).2 (Or.inl rfl))
      · exact Or.inr (List.mem_append_right _ hh)

/-- Nothing waits behind a finished walk, so its marks are closed under successors; they keep the
old marks and cover what waited. -/
theorem has_visitAll_complete {m : Marks} {waiting : List Node} (h : Closed next m waiting) :
    Closed next (visitAll next m waiting) [] ∧
      (∀ k, m.Has k → (visitAll next m waiting).Has k) ∧
      ∀ k ∈ waiting, m.Fits k → (visitAll next m waiting).Has k := by
  fun_induction visitAll next m waiting with
  | case1 m => exact ⟨h, fun k hk => hk, fun k hk => absurd hk List.not_mem_nil⟩
  | case2 m n waiting hv ih =>
    obtain ⟨hc, hold, hwait⟩ := ih (h.skip hv)
    refine ⟨hc, hold, fun k hk hf => ?_⟩
    rcases List.mem_cons.1 hk with rfl | hk
    · exact hold _ (visit?_eq_none_iff.1 hv hf)
    · exact hwait k hk hf
  | case3 m n waiting m' hv ih =>
    obtain ⟨hfits, hhas⟩ := visit?_eq_some hv
    obtain ⟨hc, hold, hwait⟩ := ih (h.visit hv)
    refine ⟨hc, fun k hk => hold k ((hhas k).2 (Or.inr hk)), fun k hk hf => ?_⟩
    rcases List.mem_cons.1 hk with rfl | hk
    · exact hold _ ((hhas _).2 (Or.inl rfl))
    · exact hwait k (List.mem_append_right _ hk) ((hfits k).2 hf)

/-- The walk from the first marks: a node that exists is visited iff some start node leads to it. -/
theorem has_visitAll_iff {m : Marks} (hm : ∀ k, ¬m.Has k) (hnext : ∀ n k, k ∈ next n → m.Fits n)
    {start : List Node} {n : Node} (hn : m.Fits n) :
    (visitAll next m start).Has n ↔ ∃ s ∈ start, ReflTransGen (fun a b => b ∈ next a) s n := by
  constructor
  · intro h
    refine has_visitAll_sound (P := fun n => ∃ s ∈ start, ReflTransGen (fun a b => b ∈ next a) s n)
      ?_ (fun k hk => absurd hk (hm k)) (fun k hk => ⟨k, hk, .refl⟩) h
    rintro a ⟨s, hs, ha⟩ k hk
    exact ⟨s, hs, ha.tail hk⟩
  · rintro ⟨s, hs, hp⟩
    have hclosed : Closed next m start := fun j hj => absurd hj (hm j)
    obtain ⟨hc, -, hstart⟩ := has_visitAll_complete hclosed
    induction hp with
    | refl => exact hstart s hs hn
    | @tail a b ha hb ih =>
      -- a node with a successor exists, so the path before it is visited too
      have hfa : m.Fits a := hnext a b hb
      rcases hc a (ih hfa) b hb ((fits_visitAll m start b).2 hn) with h | h
      · exact h
      · exact absurd h List.not_mem_nil

/-- The walk within a number of steps. Unlike the walk itself it recurses on that number, so it can
be computed where the nodes are given. -/
def visitWithin (next : Node → List Node) : Nat → Marks → List Node → Option Marks
  | _, m, [] => some m
  | 0, _, _ :: _ => none
  | steps + 1, m, n :: waiting =>
    match m.visit? n with
    | none => visitWithin next steps m waiting
    | some m' => visitWithin next steps m' (next n ++ waiting)

theorem visitAll_of_visitWithin {steps : Nat} {m m' : Marks} {waiting : List Node}
    (h : visitWithin next steps m waiting = some m') : visitAll next m waiting = m' := by
  fun_induction visitWithin next steps m waiting with
  | case1 steps m =>
    rw [visitAll]
    exact Option.some.inj h
  | case2 => cases h
  | case3 steps m n waiting hv ih =>
    rw [visitAll]
    split
    · exact ih h
    · rename_i hv'
      rw [hv] at hv'
      cases hv'
  | case4 steps m n waiting m'' hv ih =>
    rw [visitAll]
    split
    · rename_i hv'
      rw [hv] at hv'
      cases hv'
    · rename_i k hv'
      rw [hv] at hv'
      obtain rfl := Option.some.inj hv'
      exact ih h

end Marks

/-! ## Sweeping -/

namespace Heap

theorem lt_size_of_get? {h : Heap κ} {o : ObjectId} {data : Object κ} (hd : h.get? o = some data) :
    o.index < h.cells.size := by
  by_contra hlt
  rw [get?, Array.getElem?_eq_none (Nat.le_of_not_lt hlt)] at hd
  simp at hd

theorem isLive_iff {h : Heap κ} {o : ObjectId} : h.isLive o = true ↔ ∃ data, h.get? o = some data :=
  Option.isSome_iff_exists

theorem get?_sweep (h : Heap κ) (m : Marks) (o : ObjectId) :
    (h.sweep m).get? o = if m.hasObject o.index then h.get? o else none := by
  simp only [get?, sweep, Array.getElem?_mapIdx]
  cases hc : h.cells[o.index]? with
  | none => simp
  | some cell =>
    cases hm : m.hasObject o.index <;> simp

theorem isLive_sweep_iff {h : Heap κ} {m : Marks} {o : ObjectId} :
    (h.sweep m).isLive o = true ↔ h.isLive o = true ∧ m.hasObject o.index = true := by
  cases hm : m.hasObject o.index <;> simp [isLive, get?_sweep, hm]

theorem mem_unmarked_iff {h : Heap κ} {m : Marks} {i : Nat} :
    i ∈ h.unmarked m ↔ h.isLive ⟨i⟩ = true ∧ (h.sweep m).isLive ⟨i⟩ = false := by
  rw [← Bool.not_eq_true ((h.sweep m).isLive ⟨i⟩), isLive_sweep_iff]
  simp only [unmarked, List.mem_filter, List.mem_range, Bool.and_eq_true, Bool.not_eq_true']
  constructor
  · rintro ⟨-, hl, hm⟩
    exact ⟨hl, fun h => by simp [hm] at h⟩
  · rintro ⟨hl, hm⟩
    obtain ⟨data, hd⟩ := isLive_iff.1 hl
    exact ⟨lt_size_of_get? hd, hl, by simpa [hl] using hm⟩

end Heap

namespace Realm

/-- A node that refers to something exists. -/
theorem fits_of_mem_successors {r : Realm κ} {n k : Node} (h : k ∈ r.successors n) :
    (⟨Array.replicate r.heap.cells.size false, Array.replicate r.scopes.size false⟩ :
      Marks).Fits n := by
  rcases mem_successors_iff.1 h with ⟨hd, -⟩ | ⟨hs, -⟩
  · simpa [Marks.Fits] using Heap.lt_size_of_get? hd
  · simpa [Marks.Fits] using (Array.getElem?_eq_some_iff.1 hs).1

/-- An object that lives is marked iff it can be reached from the start nodes. -/
theorem hasObject_mark_iff {r : Realm κ} {start : List Node} {o : ObjectId}
    (ho : r.heap.isLive o = true) :
    (r.mark start).hasObject o.index = true ↔
      ∃ s ∈ start, ReflTransGen r.Refers s (.object o) := by
  obtain ⟨data, hd⟩ := Heap.isLive_iff.1 ho
  have hrel : (fun a b => b ∈ r.successors a) = r.Refers := by
    funext a b
    exact propext mem_successors_iff
  have hhas : (r.mark start).hasObject o.index = true ↔ (r.mark start).Has (.object o) := by
    simp only [Marks.hasObject, Marks.Has]
    cases (r.mark start).objects[o.index]? <;> simp
  rw [hhas, ← hrel]
  refine Marks.has_visitAll_iff (fun k => ?_) (fun _ _ => fits_of_mem_successors) ?_
  · cases k <;> simp [Marks.Has, Array.getElem?_replicate]
  · simpa [Marks.Fits] using Heap.lt_size_of_get? hd

/-- The marks of what can be reached, computed within a number of steps. -/
def markWithin (r : Realm κ) (steps : Nat) (start : List Node) : Option Marks :=
  Marks.visitWithin r.successors steps
    ⟨Array.replicate r.heap.cells.size false, Array.replicate r.scopes.size false⟩ start

theorem mark_of_markWithin {r : Realm κ} {steps : Nat} {start : List Node} {m : Marks}
    (h : r.markWithin steps start = some m) : r.mark start = m := Marks.visitAll_of_visitWithin h

theorem get?_collect_eq_some_iff {r : Realm κ} {scopes : List ScopeId} {values : List Value}
    {o : ObjectId} {data : Object κ} :
    (r.collect scopes values).2.heap.get? o = some data ↔
      r.heap.get? o = some data ∧ r.Reaches scopes values (.object o) := by
  set start := r.roots ++ scopes.map Node.scope ++ values.filterMap Value.node? with hstart
  have hget : (r.collect scopes values).2.heap.get? o =
      if (r.mark start).hasObject o.index then r.heap.get? o else none := Heap.get?_sweep _ _ _
  have hmark (hd : r.heap.get? o = some data) :
      (r.mark start).hasObject o.index = true ↔ r.Reaches scopes values (.object o) := by
    rw [hasObject_mark_iff (Heap.isLive_iff.2 ⟨data, hd⟩), hstart]
    simp only [mem_start_iff, Reaches]
  rw [hget]
  split
  · rename_i hm
    exact ⟨fun hd => ⟨hd, (hmark hd).1 hm⟩, And.left⟩
  · rename_i hm
    exact ⟨nofun, fun hd => absurd ((hmark hd.1).2 hd.2) hm⟩

/-- A collection keeps exactly the objects that lived and can be reached. What it keeps is left as
it was, and so is everything besides the heap. The emptied cells are those of the objects it does
not keep; it says how many they are and puts them on the stack of free cells, the highest on
top. -/
theorem collect_keeps_exactly_reached (r : Realm κ) (scopes : List ScopeId) (values : List Value) :
    let (count, r') := r.collect scopes values
    (∀ o, r'.heap.isLive o = true ↔
      r.heap.isLive o = true ∧ r.Reaches scopes values (.object o)) ∧
    (∀ o, r'.heap.isLive o = true → r'.heap.get? o = r.heap.get? o) ∧
    r' = r.withHeap r'.heap ∧ r'.heap.cells.size = r.heap.cells.size ∧
    ∃ freed : List Nat,
      (∀ i, i ∈ freed ↔ r.heap.isLive ⟨i⟩ = true ∧ r'.heap.isLive ⟨i⟩ = false) ∧
      freed.Pairwise (· < ·) ∧ count = freed.length ∧
      r'.heap.free = freed.reverse ++ r.heap.free := by
  set m := r.mark (r.roots ++ scopes.map Node.scope ++ values.filterMap Value.node?)
  have hcollect : r.collect scopes values =
      ((r.heap.unmarked m).length, r.withHeap (r.heap.sweep m)) := rfl
  rw [hcollect]
  simp only [heap_withHeap]
  refine ⟨fun o => ?_, fun o ho => ?_, trivial, by simp [Heap.sweep], r.heap.unmarked m,
    fun i => Heap.mem_unmarked_iff, ?_, rfl, rfl⟩
  · simp only [Heap.isLive_iff, ← exists_and_right]
    exact exists_congr fun data => get?_collect_eq_some_iff
  · rw [Heap.get?_sweep, if_pos (Heap.isLive_sweep_iff.1 ho).2]
  · exact List.pairwise_lt_range.sublist List.filter_sublist

end Realm

end Ecma
