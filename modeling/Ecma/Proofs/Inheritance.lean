import Ecma.Proofs.Watch

/-!
# Lookups along the prototypes

Asking whether there is a property and reading it follow the same prototypes. `Realm.SearchesAt`
says which object such a search has come to after passing a number of others, with no mention of a
limit: cycles and handles without an object are chains like any other. The search ends at the first
object that has the key, behind the last object, at a handle without an object, or at the limit,
which is one object past the longest chain that is followed (`Realm.search_ends`). What reading and
asking give is decided by that end alone.
-/

namespace Ecma

variable {κ σ : Type}

namespace Realm

/-- The object that a search for a key comes to after passing `n` objects, which live and do not
have the key. -/
inductive SearchesAt (r : Realm κ) (key : Text) (o : ObjectId) : Nat → ObjectId → Prop where
  | start : SearchesAt r key o 0 o
  | parent {n : Nat} {p q : ObjectId} {data : Object κ} (h : SearchesAt r key o n p)
      (hd : r.heap.get? p = some data) (hown : data.own? key = none)
      (hq : data.prototype = some q) : SearchesAt r key o (n + 1) q

variable {r : Realm κ} {key : Text} {o p : ObjectId} {n steps : Nat} {data : Object κ}

/-! ## Searches -/

theorem findProperty_of_dead (hd : r.heap.get? o = none) (steps : Nat) :
    r.findProperty key (steps + 1) o = .error (.collected o) := by
  rw [findProperty, object, hd]
  rfl

theorem findProperty_of_own? {q : Property} (hd : r.heap.get? o = some data)
    (hown : data.own? key = some q) (steps : Nat) :
    r.findProperty key (steps + 1) o = .ok (some q) := by
  rw [findProperty, object_eq_ok.2 hd]
  simp only [bind, Except.bind, hown]
  rfl

theorem findProperty_of_not_own? (hd : r.heap.get? o = some data) (hown : data.own? key = none)
    (steps : Nat) :
    r.findProperty key (steps + 1) o =
      data.prototype.elim (.ok none) (r.findProperty key steps) := by
  rw [findProperty, object_eq_ok.2 hd]
  simp only [bind, Except.bind, hown]
  cases data.prototype with
  | none => rfl
  | some parent => rfl

/-- Each object that is passed takes one of the steps. -/
theorem SearchesAt.findProperty_eq (h : r.SearchesAt key o n p) (steps : Nat) :
    r.findProperty key (n + steps) o = r.findProperty key steps p := by
  induction h generalizing steps with
  | start => rw [Nat.zero_add]
  | @parent n p q data h hd hown hq ih =>
    have hstep : n + 1 + steps = n + (steps + 1) := by omega
    rw [hstep, ih, findProperty_of_not_own? hd hown, hq]
    rfl

/-- The search within the limit, from an object that it comes to. -/
theorem SearchesAt.property?_eq (h : r.SearchesAt key o n p)
    (hn : n ≤ r.options.maxPrototypeDepth) :
    ∃ steps, r.property? o key = r.findProperty key (steps + 1) p := by
  obtain ⟨steps, hsteps⟩ := Nat.exists_eq_add_of_le hn
  refine ⟨steps, ?_⟩
  have hlimit : r.options.maxPrototypeDepth + 1 = n + (steps + 1) := by omega
  rw [property?, hlimit, h.findProperty_eq]

/-- A search for a key comes to as many objects as one likes, unless it ends before. -/
theorem search_ends (r : Realm κ) (key : Text) (o : ObjectId) (limit : Nat) :
    (∃ p, r.SearchesAt key o limit p) ∨
      ∃ n p, n < limit ∧ r.SearchesAt key o n p ∧
        ∀ data, r.heap.get? p = some data → data.own? key = none → data.prototype = none := by
  induction limit with
  | zero => exact Or.inl ⟨o, .start⟩
  | succ limit ih =>
    rcases ih with ⟨p, h⟩ | ⟨n, p, hn, h, hend⟩
    · by_cases hend : ∀ data, r.heap.get? p = some data → data.own? key = none →
        data.prototype = none
      · exact Or.inr ⟨limit, p, Nat.lt_succ_self _, h, hend⟩
      · push Not at hend
        obtain ⟨data, hd, hown, hproto⟩ := hend
        obtain ⟨q, hq⟩ := Option.ne_none_iff_exists'.1 hproto
        exact Or.inl ⟨q, h.parent hd hown hq⟩
    · exact Or.inr ⟨n, p, Nat.lt_succ_of_lt hn, h, hend⟩

end Realm

/-! ## Reading and asking -/

namespace Engine

variable {e : Engine κ σ} {w : World κ σ} {o : ObjectId} {key : Text}

/-- What is found is read, and that it is found is all that is asked for. -/
theorem get_of_property? {found : Option Property} (h : w.realm.property? o key = .ok found)
    (receiver : Value) :
    w.realm.hasProperty o key = .ok found.isSome ∧
      e.get o key receiver w = e.finishLookup (Realm.lookupOf receiver found) w := by
  refine ⟨by rw [Realm.hasProperty_eq, h]; rfl, ?_⟩
  simp only [get, bind, Action.bind, Action.read, Realm.lookup, h]
  rfl

/-- A search that fails is a fault for both. -/
theorem get_of_fault {f : Fault} (h : w.realm.property? o key = .error f) (receiver : Value) :
    w.realm.hasProperty o key = .error f ∧ e.get o key receiver w = (.failed f, w) := by
  refine ⟨by rw [Realm.hasProperty_eq, h]; rfl, ?_⟩
  simp only [get, bind, Action.bind, Action.read, Realm.lookup, h]
  rfl

/-- Reading a property and asking for it agree, whatever the prototypes are: at the first object
that has the key, among one more than the longest chain that is followed, the property is there and
is read, by its getter if it has one; if the chain ends before, it is not there and reads as
undefined; and a handle without an object, or a chain that is too long, is the same fault for both.
One of these is always the case. Only a getter changes anything. -/
theorem lookups_agree (e : Engine κ σ) (w : World κ σ) (o : ObjectId) (key : Text)
    (receiver : Value) :
    let r := w.realm
    let m := r.options.maxPrototypeDepth
    (∀ n p data q, n ≤ m → r.SearchesAt key o n p → r.heap.get? p = some data →
      data.own? key = some q →
        r.hasProperty o key = .ok true ∧
          e.get o key receiver w =
            match q with
            | .data v _ _ _ => (.done v, w)
            | .accessor (some f) _ _ _ => e.call f receiver [] w
            | .accessor none _ _ _ => (.done .undefined, w)) ∧
    (∀ n p data, n ≤ m → r.SearchesAt key o n p → r.heap.get? p = some data →
      data.own? key = none → data.prototype = none →
        r.hasProperty o key = .ok false ∧ e.get o key receiver w = (.done .undefined, w)) ∧
    (∀ n p, n ≤ m → r.SearchesAt key o n p → r.heap.get? p = none →
      (Fault.collected p).kind? = some .typeError ∧
        r.hasProperty o key = .error (.collected p) ∧
          e.get o key receiver w = (.failed (.collected p), w)) ∧
    (∀ p, r.SearchesAt key o (m + 1) p →
      (Fault.chainTooLong m).kind? = some .rangeError ∧
        r.hasProperty o key = .error (.chainTooLong m) ∧
          e.get o key receiver w = (.failed (.chainTooLong m), w)) ∧
    ((∃ p, r.SearchesAt key o (m + 1) p) ∨
      ∃ n p, n ≤ m ∧ r.SearchesAt key o n p ∧
        ∀ data, r.heap.get? p = some data → data.own? key = none → data.prototype = none) := by
  intro r m
  refine ⟨fun n p data q hn h hd hown => ?_, fun n p data hn h hd hown hproto => ?_,
    fun n p hn h hd => ⟨rfl, ?_⟩, fun p h => ⟨rfl, ?_⟩, ?_⟩
  · obtain ⟨steps, hsearch⟩ := h.property?_eq hn
    rw [Realm.findProperty_of_own? hd hown] at hsearch
    obtain ⟨hhas, hget⟩ := get_of_property? (e := e) hsearch receiver
    refine ⟨hhas, hget.trans ?_⟩
    rcases q with ⟨v, wr, en, c⟩ | ⟨_ | f, s, en, c⟩
    · rfl
    · rfl
    · rfl
  · obtain ⟨steps, hsearch⟩ := h.property?_eq hn
    rw [Realm.findProperty_of_not_own? hd hown, hproto] at hsearch
    exact get_of_property? hsearch receiver
  · obtain ⟨steps, hsearch⟩ := h.property?_eq hn
    rw [Realm.findProperty_of_dead hd] at hsearch
    exact get_of_fault hsearch receiver
  · -- all steps are used up by the objects that were passed
    have hsearch : r.property? o key = .error (.chainTooLong m) := h.findProperty_eq 0
    exact get_of_fault hsearch receiver
  · rcases r.search_ends key o (m + 1) with hlong | ⟨n, p, hn, h⟩
    · exact Or.inl hlong
    · exact Or.inr ⟨n, p, Nat.le_of_lt_succ hn, h⟩

/-- An object that is its own prototype has no property that it does not own: the search comes back
to it until the limit. -/
theorem lookups_agree_on_cycle :
    let r : Realm Unit := ((Realm.fresh { maxPrototypeDepth := 2 }).create .ordinary (some ⟨10⟩)).2
    let e : Engine Unit Unit := Library.silent.engine 1
    r.SearchesAt (.ofString "x") ⟨10⟩ 3 ⟨10⟩ ∧
      r.hasProperty ⟨10⟩ (.ofString "x") = .error (.chainTooLong 2) ∧
      e.get ⟨10⟩ (.ofString "x") .null ⟨r, ()⟩ = (.failed (.chainTooLong 2), ⟨r, ()⟩) := by
  intro r e
  have hview : (r.heap.get? ⟨10⟩).map (fun data => (data.own? (.ofString "x"), data.prototype)) =
      some (none, some ⟨10⟩) := by decide +kernel
  obtain ⟨data, hd, hdata⟩ := Option.map_eq_some_iff.1 hview
  obtain ⟨hown, hproto⟩ := Prod.mk.inj hdata
  have hsearch : r.SearchesAt (.ofString "x") ⟨10⟩ 3 ⟨10⟩ :=
    ((Realm.SearchesAt.start.parent hd hown hproto).parent hd hown hproto).parent hd hown hproto
  obtain ⟨-, -, -, hlong, -⟩ := lookups_agree e ⟨r, ()⟩ ⟨10⟩ (.ofString "x") .null
  exact ⟨hsearch, (hlong ⟨10⟩ hsearch).2⟩

end Engine

end Ecma
