import Ecma.Proofs.CodePoint
import Ecma.Proofs.Mirror
import Ecma.Proofs.Stability

/-!
# Reading and writing a name meet at one place

Reading a name and assigning to it are two walks over the same scopes. Both are one walk to a place,
`Realm.place`, followed by a read or a write there (`resolve_eq` and `assignName_eq`), so they fail
on the way for the same reason and find the same binding. At the place, a variable can always be
read and written (`varsReady_of_reached`), and a property without accessors needs no function call.
-/

namespace Ecma

variable {κ σ : Type}

/-- Where a name is found: among the lexical names or the variables of a scope, or on an object that
stands in for one. -/
inductive Place where
  | lexical (s : ScopeId)
  | var (s : ScopeId)
  | property (o : ObjectId)
deriving DecidableEq

namespace Realm

/-- The place of a name in scopes from the inside out. -/
def placeIn (r : Realm κ) (name : String) : List ScopeId → Except Fault Place
  | [] => .error (.notDefined name)
  | s :: outer =>
    let scope := r.scope s
    if scope.lexical.contains name then .ok (.lexical s)
    else
      let here : Except Fault Place :=
        if scope.vars.contains name then .ok (.var s) else r.placeIn name outer
      match scope.linked with
      | none => here
      | some o => do
        if ← r.hasProperty o (.ofString name) then return .property o else here

/-- The place of a name, seen from a scope. -/
def place (r : Realm κ) (s : ScopeId) (name : String) : Except Fault Place :=
  r.placeIn name (r.chain s)

/-- Reads a name at a place. -/
def readAt (r : Realm κ) (name : String) : Place → Except Fault Lookup
  | .lexical s =>
    match (r.scope s).lexical.get? name with
    | some b => if b.initialized then .ok (.value b.value) else .error (.uninitialized name)
    | none => .error (.notDefined name)
  | .var s =>
    match (r.scope s).vars.get? name with
    | some b => .ok (.value b.value)
    | none => .error (.notDefined name)
  | .property o => r.lookup o (.ofString name) (.object o)

/-- Writes a name at a place. -/
def writeAt (r : Realm κ) (name : String) (v : Value) : Place → Except Fault (Assignment κ)
  | .lexical s =>
    match (r.scope s).lexical.get? name with
    | some b =>
      (b.assign name v).map fun b => .stored (r.modifyScope s fun scope => scope.putLexical name b)
    | none => .error (.notDefined name)
  | .var s =>
    match (r.scope s).vars.get? name with
    | some b =>
      (b.assign name v).map fun b => .stored (r.modifyScope s fun scope => scope.putVar name b)
    | none => .error (.notDefined name)
  | .property o => r.assign o (.ofString name) v

/-! ## Both walks lead to the place -/

/-- What is done with a name scope by scope is done at its place. -/
theorem eq_placeIn_bind {α : Type} (r : Realm κ) (name : String) (use : Place → Except Fault α)
    (walk : List ScopeId → Except Fault α) (hnil : walk [] = .error (.notDefined name))
    (hcons : ∀ s outer, walk (s :: outer) =
      if (r.scope s).lexical.contains name then use (.lexical s)
      else
        let here := if (r.scope s).vars.contains name then use (.var s) else walk outer
        match (r.scope s).linked with
        | none => here
        | some o => do
          if ← r.hasProperty o (.ofString name) then use (.property o) else here)
    (chain : List ScopeId) : walk chain = r.placeIn name chain >>= use := by
  induction chain with
  | nil => exact hnil
  | cons s outer ih =>
    rw [hcons, placeIn]
    dsimp only
    -- what both find where neither a lexical name nor a property is in the way
    have hhere : (if (r.scope s).vars.contains name then use (.var s) else walk outer) =
        (if (r.scope s).vars.contains name then .ok (.var s) else r.placeIn name outer) >>=
          use := by
      split
      · rfl
      · exact ih
    split
    · rfl
    · rw [hhere]
      split
      · rfl
      · rename_i o _
        cases r.hasProperty o (.ofString name) with
        | error f => rfl
        | ok found =>
          cases found with
          | true => rfl
          | false => rfl

theorem resolve_eq (r : Realm κ) (s : ScopeId) (name : String) :
    r.resolve s name = r.place s name >>= r.readAt name := by
  refine r.eq_placeIn_bind name (r.readAt name) (r.resolveIn name) rfl (fun s outer => ?_) _
  rw [resolveIn]
  cases hlex : (r.scope s).lexical.get? name with
  | some b => simp [OrderedMap.contains, hlex, readAt]
  | none =>
    cases hlink : (r.scope s).linked <;> cases hvar : (r.scope s).vars.get? name <;>
      simp [OrderedMap.contains, hlex, hvar, readAt]

theorem assignName_eq (r : Realm κ) (s : ScopeId) (name : String) (v : Value) :
    r.assignName s name v = r.place s name >>= r.writeAt name v := by
  refine r.eq_placeIn_bind name (r.writeAt name v) (r.assignIn name v) rfl (fun s outer => ?_) _
  rw [assignIn]
  cases hlex : (r.scope s).lexical.get? name with
  | some b => simp [OrderedMap.contains, hlex, writeAt]
  | none =>
    cases hlink : (r.scope s).linked <;> cases hvar : (r.scope s).vars.get? name <;>
      simp [OrderedMap.contains, hlex, hvar, writeAt]

/-! ## What is at a place -/

/-- What there is at a place that was found in some scopes. -/
def Holds (r : Realm κ) (name : String) (chain : List ScopeId) : Place → Prop
  | .lexical s => ∃ b, (r.scope s).lexical.get? name = some b
  | .var s => ∃ b, (r.scope s).vars.get? name = some b
  | .property o =>
    (∃ t ∈ chain, (r.scope t).linked = some o) ∧ r.hasProperty o (.ofString name) = .ok true

/-- Why no place is found in some scopes: none of them has the name, or looking for it on an object
that stands in for one of them fails. -/
def Lost (r : Realm κ) (name : String) (chain : List ScopeId) (f : Fault) : Prop :=
  f = .notDefined name ∨
    ∃ t ∈ chain, ∃ o, (r.scope t).linked = some o ∧ r.hasProperty o (.ofString name) = .error f

theorem placeIn_cases (r : Realm κ) (name : String) (chain : List ScopeId) :
    (∃ f, r.placeIn name chain = .error f ∧ r.Lost name chain f) ∨
      ∃ p, r.placeIn name chain = .ok p ∧ r.Holds name chain p := by
  induction chain with
  | nil => exact Or.inl ⟨_, rfl, Or.inl rfl⟩
  | cons s outer ih =>
    rw [placeIn]
    dsimp only
    split
    · rename_i hlex
      exact Or.inr ⟨_, rfl, Option.isSome_iff_exists.1 hlex⟩
    have hhere : ∀ here, here = (if (r.scope s).vars.contains name then .ok (.var s)
        else r.placeIn name outer) →
        (∃ f, here = .error f ∧ r.Lost name (s :: outer) f) ∨
          ∃ p, here = .ok p ∧ r.Holds name (s :: outer) p := by
      rintro here rfl
      split
      · rename_i hvar
        exact Or.inr ⟨_, rfl, Option.isSome_iff_exists.1 hvar⟩
      · rcases ih with ⟨f, hf, hlost⟩ | ⟨p, hp, hholds⟩
        · refine Or.inl ⟨f, hf, hlost.imp id ?_⟩
          rintro ⟨t, ht, hrest⟩
          exact ⟨t, List.mem_cons_of_mem s ht, hrest⟩
        · refine Or.inr ⟨p, hp, ?_⟩
          cases p with
          | lexical t => exact hholds
          | var t => exact hholds
          | property o =>
            obtain ⟨⟨t, ht, hlink⟩, hhas⟩ := hholds
            exact ⟨⟨t, List.mem_cons_of_mem s ht, hlink⟩, hhas⟩
    split
    · exact hhere _ rfl
    · rename_i o hlink
      cases hhas : r.hasProperty o (.ofString name) with
      | error f => exact Or.inl ⟨f, rfl, Or.inr ⟨s, List.mem_cons_self, o, hlink, hhas⟩⟩
      | ok found =>
        cases found with
        | true => exact Or.inr ⟨_, rfl, ⟨s, List.mem_cons_self, hlink⟩, hhas⟩
        | false => exact hhere _ rfl

end Realm

/-! ## Objects without accessors under a key -/

/-- The second object is met by following prototypes from the first one, which may be itself. -/
inductive Heap.Inherits (h : Heap κ) : ObjectId → ObjectId → Prop where
  | self (o : ObjectId) : Inherits h o o
  | parent {o p q : ObjectId} {data : Object κ} (hd : h.get? o = some data)
      (hp : data.prototype = some p) (hq : Inherits h p q) : Inherits h o q

/-- Neither the object nor one that it inherits from has accessors under the key. -/
def Heap.NoAccessor (h : Heap κ) (key : Text) (o : ObjectId) : Prop :=
  ∀ p data q, h.Inherits o p → h.get? p = some data → data.own? key = some q → q.isAccessor = false

namespace Realm

variable {r r' : Realm κ} {o : ObjectId} {key : Text} {s : ScopeId} {name : String} {v : Value}

theorem findProperty_isAccessor {steps : Nat} {q : Property}
    (h : r.findProperty key steps o = .ok (some q)) (hno : r.heap.NoAccessor key o) :
    q.isAccessor = false := by
  induction steps generalizing o with
  | zero => cases h
  | succ steps ih =>
    obtain ⟨data, hd, h⟩ := Except.bind_eq_ok h
    rw [object_eq_ok] at hd
    split at h
    · rename_i p hp
      obtain rfl := Option.some.inj (Except.ok.inj h)
      exact hno o data p (.self o) hd hp
    · split at h
      · rename_i parent hparent
        exact ih h fun p d q hp hdp hq => hno p d q (.parent hd hparent hp) hdp hq
      · cases h

/-- A property that is there and has no accessors reads as its value. -/
theorem lookup_of_hasProperty (h : r.hasProperty o key = .ok true)
    (hno : r.heap.NoAccessor key o) (receiver : Value) :
    ∃ u, r.lookup o key receiver = .ok (.value u) := by
  obtain ⟨found, hf, hsome⟩ := Except.map_eq_ok ((r.hasProperty_eq o key).symm.trans h)
  obtain ⟨q, rfl⟩ := Option.isSome_iff_exists.1 hsome
  have hq := findProperty_isAccessor hf hno
  cases q with
  | data u w e c => exact ⟨u, by rw [lookup, hf]; rfl⟩
  | accessor g t e c => cases hq

theorem get?_of_hasProperty {found : Bool} (h : r.hasProperty o key = .ok found) :
    ∃ data, r.heap.get? o = some data := by
  obtain ⟨p, hp, -⟩ := Except.map_eq_ok ((r.hasProperty_eq o key).symm.trans h)
  obtain ⟨data, hd, -⟩ := Except.bind_eq_ok hp
  exact ⟨data, object_eq_ok.1 hd⟩

theorem assign_of_object {data data' : Object κ} (hd : r.heap.get? o = some data)
    (ha : data.assign key v = .ok (.object data')) :
    r.assign o key v = .ok (.stored ((r.replaceObject o data').sync data' key)) := by
  rw [assign, object_eq_ok.2 hd]
  simp only [bind, Except.bind, ha]
  rfl

theorem assign_of_ignored {data : Object κ} (hd : r.heap.get? o = some data)
    (ha : data.assign key v = .ok .ignored) : r.assign o key v = .ok .ignored := by
  rw [assign, object_eq_ok.2 hd]
  simp only [bind, Except.bind, ha]
  rfl

/-- Without accessors and dense elements, assigning calls no function and does not fail. -/
theorem assign_of_noAccessor {data : Object κ} (hd : r.heap.get? o = some data)
    (he : data.elements = none) (hno : r.heap.NoAccessor key o) (v : Value) :
    r.assign o key v = .ok .ignored ∨ ∃ r', r.assign o key v = .ok (.stored r') := by
  have hassign : (∃ data', data.assign key v = .ok (.object data')) ∨
      data.assign key v = .ok .ignored := by
    unfold Object.assign
    split
    · rename_i hp
      cases hno o data _ (.self o) hd (by rw [Object.own?, hp]; rfl)
    · rename_i hp
      cases hno o data _ (.self o) hd (by rw [Object.own?, hp]; rfl)
    · split
      · exact Or.inl ⟨_, rfl⟩
      · exact Or.inr rfl
    · unfold Object.assignAbsent
      rw [he]
      dsimp only
      split
      · exact Or.inl ⟨_, rfl⟩
      · exact Or.inr rfl
  rcases hassign with ⟨data', ha⟩ | ha
  · exact Or.inr ⟨_, assign_of_object hd ha⟩
  · exact Or.inl (assign_of_ignored hd ha)

end Realm

/-! ## What holds of every scope -/

namespace Realm

section ScopeInduction

variable {r r' : Realm κ} {allowed : Request κ → Prop} {options : Options} {P : Scope → Prop}
  (hmake : ∀ kind outer, P (.make kind outer))
  (hedit : ∀ {r : Realm κ} {s : ScopeId} {f : Scope → Scope}, r.Edit allowed s f →
    P (r.scope s) → P (f (r.scope s)))

include hmake hedit

theorem ScopeStep.scope_keeps (hs : ScopeStep allowed r r') (h : ∀ s, P (r.scope s))
    (s : ScopeId) : P (r'.scope s) := by
  rcases hs.scope_cases s with heq | ⟨-, kind, outer, heq⟩ | ⟨f, he, heq⟩
  · rw [heq]
    exact h s
  · rw [heq]
    exact hmake kind outer
  · rw [heq]
    exact hedit he (h s)

theorem scope_fresh_keeps (options : Options) (s : ScopeId) :
    P ((fresh options : Realm κ).scope s) := by
  have hr := unlinked_intrinsics (κ := κ) options
  simp only [fresh]
  generalize Intrinsic.all.foldl (fun r i => (r.allocate (intrinsicObject i)).2) (bare options) = r
    at hr
  have hempty : ∀ t, P (r.createObject.2.scope t) := by
    intro t
    have hscopes : r.createObject.2.scopes = #[.make .global []] := hr.scopes_eq
    rw [scope, hscopes]
    rcases t with ⟨_ | i⟩
    · exact hmake .global []
    · exact hmake .global []
  rcases hc : r.createObject with ⟨global, r1⟩
  rw [hc] at hempty
  have hlink : ScopeStep allowed r1 (r1.link r1.globalScope global) := .link r1 _ global
  have hlinked := hlink.scope_keeps hmake hedit hempty
  generalize r1.link r1.globalScope global = r2 at hlinked
  have hbuiltin : ∀ r3 : Realm κ, r3.scopes = r2.scopes →
      P ((r3.defineBuiltin "globalThis" (.object global)).scope s) := by
    intro r3 hscopes
    have hstep : ScopeStep allowed r3 (r3.defineBuiltin "globalThis" (.object global)) :=
      .defineBuiltin r3 _ _
    refine hstep.scope_keeps hmake hedit (fun t => ?_) s
    rw [scope, hscopes]
    exact hlinked t
  exact hbuiltin _ rfl

/-- What holds of scopes without names and is kept by every edit holds of every scope. -/
theorem Reached.scope_induction (h : Reached allowed options r) (s : ScopeId) :
    P (r.scope s) := by
  refine h.induction (P := fun r => ∀ s, P (r.scope s)) (scope_fresh_keeps hmake hedit options) ?_ s
  intro r r' hr hs
  have hsteps := hs.scopeSteps
  clear hs
  induction hsteps with
  | refl => exact hr
  | tail _ hstep ih => exact hstep.scope_keeps hmake hedit ih

end ScopeInduction

end Realm

/-! ## Variables can always be assigned to -/

/-- The declarations of all variables have run, and none of them is a constant. -/
def Scope.VarsReady (scope : Scope) : Prop :=
  ∀ name b, scope.vars.get? name = some b → b.initialized = true ∧ b.isMutable = true

namespace Scope.VarsReady

variable {scope : Scope}

theorem make (kind : ScopeKind) (outer : List ScopeId) : (Scope.make kind outer).VarsReady := by
  intro name b hb
  cases hb

theorem putVar (h : scope.VarsReady) {name : String} {b : Binding} (hi : b.initialized = true)
    (hm : b.isMutable = true) : (scope.putVar name b).VarsReady := by
  intro x c hc
  rw [Scope.putVar, OrderedMap.get?_insert] at hc
  split at hc
  · obtain rfl := Option.some.inj hc
    exact ⟨hi, hm⟩
  · exact h x c hc

theorem setVar (h : scope.VarsReady) (name : String) (v : Value) :
    (scope.setVar name v).VarsReady := by
  intro x c hc
  rw [Scope.setVar, OrderedMap.get?_modify] at hc
  split at hc
  · obtain ⟨b, hb, rfl⟩ := Option.map_eq_some_iff.1 hc
    exact h name b hb
  · exact h x c hc

theorem dropVar (h : scope.VarsReady) (name : String) : (scope.dropVar name).VarsReady := by
  intro x c hc
  rw [Scope.dropVar, Scope.unmarkHoisted, OrderedMap.get?_erase] at hc
  split at hc
  · cases hc
  · exact h x c hc

end Scope.VarsReady

namespace Realm

variable {r r' : Realm κ} {o : ObjectId} {key : Text} {s : ScopeId} {name : String} {v : Value}
  {allowed : Request κ → Prop} {options : Options}

theorem redeclareVar_ready {existing : Option Binding} {kind : BindingKind}
    (hk : (r.scope s).isLexical kind = false)
    (h : ∀ b, existing = some b → b.isMutable = true) :
    (redeclareVar existing kind v).initialized = true ∧
      (redeclareVar existing kind v).isMutable = true := by
  have hconst : kind ≠ .constName := by
    rintro rfl
    cases hk
  cases existing with
  | none => exact ⟨rfl, bne_iff_ne.2 hconst⟩
  | some b =>
    refine ⟨rfl, ?_⟩
    have hb := h b rfl
    by_cases hf : kind = .functionName
    · simp [redeclareVar, Binding.isMutable, hf]
    · simpa [redeclareVar, Binding.isMutable, hf] using hb

theorem varsReady_of_edit {f : Scope → Scope} (he : r.Edit allowed s f)
    (h : (r.scope s).VarsReady) : (f (r.scope s)).VarsReady := by
  cases he with
  | register ha => exact h
  | declareLexical hm => exact h
  | assignLexical hb ha => exact h
  | @declareVar name kind v hk =>
    have hready := redeclareVar_ready (v := v) hk
      fun b (hb : (r.scope s).vars.get? name = some b) => (h name b hb).2
    exact h.putVar hready.1 hready.2
  | addVar name v => exact h.putVar rfl rfl
  | @assignVar name v b b' hb ha =>
    have hlives := Binding.outlives_of_assign ha
    exact h.putVar hlives.initialized (hlives.isMutable_eq.trans (h name b hb).2)
  | setVar name v => exact h.setVar name v
  | hoist name v =>
    dsimp only
    split
    · exact h.setVar name v
    · have hput : ((r.scope s).putVar name (.init .varName v)).VarsReady := h.putVar rfl rfl
      exact hput
  | dropVar name => exact h.dropVar name
  | link o => exact h

theorem varsReady_of_reached (h : Reached allowed options r) (s : ScopeId) :
    (r.scope s).VarsReady := h.scope_induction .make varsReady_of_edit s

end Realm
end Ecma
