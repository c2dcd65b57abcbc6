import Ecma.Proofs.Declaration

/-!
# Properties that may not be written

Assigning to a property or to a name leaves a property alone that may not be written. Declaring a
name does not ask: a declaration that carries its variable over to the object that is linked to the
scope gives the property of that name the new value, whether it may be written or not.
`Realm.overwrites?` is that value. There is no other way in which assignments and declarations
change such a property, short of a setter that does it.
-/

namespace Ecma

variable {κ σ : Type}

/-! ## Assignments that call no setter -/

/-- Whether a function has to be called to end the assignment. -/
def Assignment.isSetter : Assignment κ → Bool
  | setter .. => true
  | stored .. | ignored => false

/-- Whether a request assigns to what a setter answers for. -/
def Realm.callsSetter (r : Realm κ) : Request κ → Bool
  | .set o key v => (r.assign o key v).toOption.any Assignment.isSetter
  | .setBinding s name v => (r.assignName s name v).toOption.any Assignment.isSetter
  | _ => false

/-- Without a setter, an assignment leaves the world alone or stores what it says. -/
theorem Engine.world_of_assignment (e : Engine κ σ) (v : Value)
    (assign : Realm κ → Except Fault (Assignment κ)) {w : World κ σ}
    (hset : (assign w.realm).toOption.any Assignment.isSetter = false) :
    ((Action.read assign).bind (e.finishAssignment v) w).2 = w ∨
      ∃ r', assign w.realm = .ok (.stored r') ∧
        ((Action.read assign).bind (e.finishAssignment v) w).2 = ⟨r', w.host⟩ := by
  unfold Action.bind Action.read
  cases ha : assign w.realm with
  | error f => exact Or.inl rfl
  | ok a =>
    rw [ha] at hset
    cases a with
    | stored r' => exact Or.inr ⟨r', rfl, rfl⟩
    | ignored => exact Or.inl rfl
    | setter f receiver => cases hset

theorem Engine.set_cases (e : Engine κ σ) {w : World κ σ} {o : ObjectId} {key : Text} {v : Value}
    (hset : w.realm.callsSetter (.set o key v) = false) :
    (e.set o key v w).2 = w ∨
      ∃ r', w.realm.assign o key v = .ok (.stored r') ∧ (e.set o key v w).2 = ⟨r', w.host⟩ :=
  e.world_of_assignment v (·.assign o key v) hset

theorem Engine.setBinding_cases (e : Engine κ σ) {w : World κ σ} {s : ScopeId} {name : String}
    {v : Value} (hset : w.realm.callsSetter (.setBinding s name v) = false) :
    (e.setBinding s name v w).2 = w ∨
      ∃ r', w.realm.assignName s name v = .ok (.stored r') ∧
        (e.setBinding s name v w).2 = ⟨r', w.host⟩ :=
  e.world_of_assignment v (·.assignName s name v) hset

/-! ## Objects -/

variable {o : ObjectId} {key : Text} {u : Value} {en c : Bool}

namespace Object

variable {data data' : Object κ}

/-- Dense elements may all be written, so a property that may not is a stored one. -/
theorem get?_of_own?_fixed (h : data.own? key = some (.data u false en c)) :
    data.properties.get? key = some (.data u false en c) := by
  rcases Option.or_eq_some_iff.1 h with h | ⟨-, h⟩
  · exact h
  · exfalso
    obtain ⟨elements, -, h⟩ := Option.bind_eq_some_iff.1 h
    split at h
    · cases h
    · obtain ⟨i, -, h⟩ := Option.bind_eq_some_iff.1 h
      obtain ⟨v, -, h⟩ := Option.bind_eq_some_iff.1 h
      cases h

/-- Assigning under any key leaves a property alone that may not be written. -/
theorem fixed_of_assign {k : Text} {v : Value} (h : data.assign k v = .ok (.object data'))
    (hp : data.properties.get? key = some (.data u false en c)) :
    data'.properties.get? key = some (.data u false en c) := by
  have hk : key ≠ k := by
    rintro rfl
    rw [assign, hp] at h
    cases h
  rcases assign_eq_object h with ⟨p, -, rfl⟩ | ⟨-, elements, rfl, -⟩
  · rw [putProperty, OrderedMap.get?_insert, if_neg hk, hp]
  · exact hp

end Object

namespace Realm

variable {r r' : Realm κ} {req : Request κ} {name : String} {v : Value}

theorem ownProperty?_eq_fixed_iff :
    r.ownProperty? o key = .ok (some (.data u false en c)) ↔
      ∃ data, r.heap.get? o = some data ∧
        data.properties.get? key = some (.data u false en c) := by
  constructor
  · intro h
    obtain ⟨data, hd, hown⟩ := Except.map_eq_ok h
    exact ⟨data, object_eq_ok.1 hd, Object.get?_of_own?_fixed hown⟩
  · rintro ⟨data, hd, hp⟩
    rw [ownProperty?, object_eq_ok.2 hd]
    exact congrArg Except.ok (Object.own?_of_get? hp)

/-- Replacing an object keeps the fixed properties of the others and those that it keeps itself. -/
theorem fixed_replaceObject {p : ObjectId} {data data' : Object κ} (hd : r.heap.get? p = some data)
    (hkeep : p = o → data.properties.get? key = some (.data u false en c) →
      data'.properties.get? key = some (.data v false en c))
    (hother : p ≠ o → v = u) (h : r.ownProperty? o key = .ok (some (.data u false en c))) :
    (r.replaceObject p data').ownProperty? o key = .ok (some (.data v false en c)) := by
  rw [ownProperty?_eq_fixed_iff] at h ⊢
  obtain ⟨d, ho, hp⟩ := h
  rw [heap_replaceObject, Heap.get?_replace]
  by_cases hpo : p = o
  · subst hpo
    obtain rfl : data = d := Option.some.inj (hd.symm.trans ho)
    exact ⟨data', by rw [if_pos rfl, hd]; rfl, hkeep rfl hp⟩
  · rw [if_neg fun h => hpo h.symm, hother hpo]
    exact ⟨d, ho, hp⟩

theorem fixed_of_assign {p : ObjectId} {k : Text} (ha : r.assign p k v = .ok (.stored r'))
    (h : r.ownProperty? o key = .ok (some (.data u false en c))) :
    r'.ownProperty? o key = .ok (some (.data u false en c)) := by
  obtain ⟨data, data', hd, hdata, rfl⟩ := assign_eq_stored ha
  have hkept := fixed_replaceObject (o := o) (v := u) hd
    (fun _ hp => Object.fixed_of_assign hdata hp) (fun _ => rfl) h
  rw [ownProperty?_eq_fixed_iff] at hkept ⊢
  rwa [heap_sync]

theorem fixed_of_assignName {s : ScopeId} (ha : r.assignName s name v = .ok (.stored r'))
    (h : r.ownProperty? o key = .ok (some (.data u false en c))) :
    r'.ownProperty? o key = .ok (some (.data u false en c)) := by
  obtain ⟨t, -, hstores⟩ := assignIn_eq_stored ha
  cases hstores with
  | lexical hb hassign => exact h
  | var hb hassign hl => exact h
  | property hl hassign => exact fixed_of_assign hassign h

/-! ## Declarations -/

/-- The value that a declaration gives to a property of an object without asking whether it may be
written: the declaration carries its variable over, and the object is linked to the scope. -/
def overwrites? (r : Realm κ) (req : Request κ) (o : ObjectId) (key : Text) : Option Value := do
  let (name, v) ← req.declared?
  let (s, _) ← r.varWrite? req
  if req.publishes ∧ (r.scope s).linked = some o ∧ key = .ofString name then some v else none

theorem overwrites?_eq_none_of_kept (hw : r.varWrite? req = none) :
    r.overwrites? req o key = none := by
  rw [overwrites?, hw]
  cases req.declared? with
  | none => rfl
  | some declared => rfl

theorem overwrites?_eq {s : ScopeId} {write : Scope → Scope}
    (hreq : req.declared? = some (name, v)) (hw : r.varWrite? req = some (s, write)) :
    r.overwrites? req o key =
      if req.publishes ∧ (r.scope s).linked = some o ∧ key = .ofString name then some v
      else none := by
  rw [overwrites?, hreq, hw]
  rfl

/-- What a declaration makes of a property that may not be written. -/
theorem Settles.fixed {f : Option Fault} (hs : r.Settles req name v f r')
    (hreq : req.declared? = some (name, v))
    (h : r.ownProperty? o key = .ok (some (.data u false en c))) :
    r'.ownProperty? o key =
      .ok (some (.data ((r.overwrites? req o key).getD u) false en c)) := by
  obtain ⟨global, ho, hp⟩ := ownProperty?_eq_fixed_iff.1 h
  cases hs with
  | kept hw =>
    rw [overwrites?_eq_none_of_kept hw]
    exact h
  | lexical hw s b =>
    rw [overwrites?_eq_none_of_kept hw]
    exact h
  | unlinked hw hl =>
    rw [overwrites?_eq hreq hw, hl, if_neg fun hover => Option.some_ne_none o hover.2.1.symm]
    exact h
  | @dead s write p hw hl hd =>
    -- the object with the property is alive, so it is another one
    have hne : p ≠ o := by
      rintro rfl
      cases hd.symm.trans ho
    rw [overwrites?_eq hreq hw, hl, if_neg fun hover => hne (Option.some.inj hover.2.1)]
    exact h
  | @published s write p data hpub hw hl hd =>
    rw [overwrites?_eq hreq hw, hl]
    refine fixed_replaceObject hd (fun hpo hget => ?_) (fun hne => ?_) h
    · subst hpo
      rw [Object.putProperty, OrderedMap.get?_insert]
      by_cases hkey : key = .ofString name
      · subst hkey
        rw [if_pos rfl, if_pos ⟨hpub, rfl, rfl⟩, hget]
        rfl
      · rw [if_neg hkey, if_neg fun hover => hkey hover.2.2]
        exact hget
    · rw [if_neg fun hover => hne (Option.some.inj hover.2.1)]
      rfl
  | adopted hpub hw hl hd hown hr =>
    rw [overwrites?_eq hreq hw, hpub, if_neg fun hover => Bool.false_ne_true hover.1]
    rcases hr with rfl | ⟨current, -, rfl⟩
    · exact h
    · exact h
  | @added s write p data hpub hw hl hd hown deletable =>
    rw [overwrites?_eq hreq hw, hpub, if_neg fun hover => Bool.false_ne_true hover.1]
    refine fixed_replaceObject hd (fun hpo hget => ?_) (fun _ => rfl) h
    -- a property is added only under a name that the object does not have
    have hkey : key ≠ .ofString name := by
      rintro rfl
      cases hown.symm.trans (Object.own?_of_get? hget)
    rw [Object.putProperty, OrderedMap.get?_insert, if_neg hkey]
    exact hget

end Realm

/-! ## All of them -/

/-- The requests that assign to a property, or that assign to a name or declare it. -/
def Request.writes : Request κ → Bool
  | set .. | setBinding .. => true
  | req => req.declared?.isSome

namespace Engine

variable {e : Engine κ σ} {req : Request κ} {w : World κ σ}

/-- A property that may not be written is still there, and still may not be written, after any
assignment or declaration that calls no setter. It has kept its value as well, unless a declaration
carries a variable over to it. -/
theorem readOnly_property_after (hreq : req.writes = true)
    (hset : w.realm.callsSetter req = false)
    (hp : w.realm.ownProperty? o key = .ok (some (.data u false en c))) :
    (e.perform req w).2.realm.ownProperty? o key =
      .ok (some (.data ((w.realm.overwrites? req o key).getD u) false en c)) := by
  have hdeclared : ∀ name v, req.declared? = some (name, v) →
      (e.perform req w).2.realm.ownProperty? o key =
        .ok (some (.data ((w.realm.overwrites? req o key).getD u) false en c)) :=
    fun name v hname => (perform_settles hname).1.fixed hname hp
  cases req with
  | set p k v =>
    rw [perform]
    rcases e.set_cases hset with hw | ⟨r', ha, hw⟩
    · rw [hw]
      exact hp
    · rw [hw]
      exact Realm.fixed_of_assign ha hp
  | setBinding s name v =>
    rw [perform]
    rcases e.setBinding_cases hset with hw | ⟨r', ha, hw⟩
    · rw [hw]
      exact hp
    · rw [hw]
      exact Realm.fixed_of_assignName ha hp
  | declare s name kind v => exact hdeclared name v rfl
  | setInScope s name v => exact hdeclared name v rfl
  | declareVar s name v deletable => exact hdeclared name v rfl
  | hoistFunction s name v => exact hdeclared name v rfl
  | _ => cases hreq

/-- Assigning to the name of the undefined value ends without a complaint and without effect. -/
theorem readOnly_property_after_ignored :
    let r : Realm Unit := Realm.fresh {}
    let req : Request Unit := .setBinding ⟨0⟩ "undefined" .null
    let e : Engine Unit Unit := Library.silent.engine 1
    let w : World Unit Unit := ⟨r, ()⟩
    req.writes = true ∧ r.callsSetter req = false ∧
      r.overwrites? req ⟨9⟩ (.ofString "undefined") = none ∧
      r.ownProperty? ⟨9⟩ (.ofString "undefined") = .ok (some (.data .undefined false false false)) ∧
      (e.perform req w).2.realm.ownProperty? ⟨9⟩ (.ofString "undefined") =
        .ok (some (.data .undefined false false false)) := by
  intro r req e w
  have hset : r.callsSetter req = false := by decide +kernel
  have hover : r.overwrites? req ⟨9⟩ (.ofString "undefined") = none := rfl
  have hp : r.ownProperty? ⟨9⟩ (.ofString "undefined") =
      .ok (some (.data .undefined false false false)) := by decide +kernel
  exact ⟨rfl, hset, hover, hp, readOnly_property_after (w := w) rfl hset hp⟩

/-- Declaring a variable of that name gives the property another value all the same. -/
theorem undefined_overwritten :
    let r : Realm Unit := Realm.fresh {}
    let e : Engine Unit Unit := Library.silent.engine 1
    let result := e.perform (.declare ⟨0⟩ "undefined" .varName (.boolean true)) ⟨r, ()⟩
    Realm.Reached (fun _ => True) {} r ∧ result.1 = .done () ∧
      r.ownProperty? ⟨9⟩ (.ofString "undefined") = .ok (some (.data .undefined false false false)) ∧
      result.2.realm.ownProperty? ⟨9⟩ (.ofString "undefined") =
        .ok (some (.data (.boolean true) false false false)) := by
  intro r e result
  refine ⟨.fresh, rfl, ?_, ?_⟩
  · decide +kernel
  · decide +kernel

end Engine

end Ecma
