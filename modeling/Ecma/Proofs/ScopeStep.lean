import Ecma.Proofs.Outcome
import Ecma.Proofs.Step

/-!
# What a step does to the scopes

Of all that a step can do to a realm, few things reach a scope: `Realm.Edit` lists them, each with
what held before it. A step leaves the options alone and takes the scopes through such edits, or
adds a scope without names (`Realm.Step.scopeSteps`). Seen from one scope, this is a case split
(`Realm.ScopeStep.scope_cases`), from which the invariants of scopes follow without a look at the
operations.
-/

namespace Ecma.Realm

open Relation

variable {κ : Type} {allowed : Request κ → Prop} {r r' : Realm κ}

/-- The ways in which a step changes the scope with a number. -/
inductive Edit (allowed : Request κ → Prop) (r : Realm κ) (s : ScopeId) :
    (Scope → Scope) → Prop where
  | register {name : String} {kind : BindingKind}
      (ha : allowed (.createUninitialized s name kind)) :
      Edit allowed r s fun scope => scope.putLexical name (.pending kind)
  | declareLexical {name : String} {kind : BindingKind} {v : Value}
      (hm : ∀ b, (r.scope s).lexical.get? name = some b → r.mayRedeclare b kind = true) :
      Edit allowed r s fun scope => scope.putLexical name (.init kind v)
  | assignLexical {name : String} {v : Value} {b b' : Binding}
      (hb : (r.scope s).lexical.get? name = some b) (ha : b.assign name v = .ok b') :
      Edit allowed r s fun scope => scope.putLexical name b'
  | declareVar {name : String} {kind : BindingKind} {v : Value}
      (hk : (r.scope s).isLexical kind = false) :
      Edit allowed r s fun scope =>
        (scope.putVar name (redeclareVar ((r.scope s).vars.get? name) kind v)).unmarkHoisted name
  | addVar (name : String) (v : Value) :
      Edit allowed r s fun scope => scope.putVar name (.init .varName v)
  | assignVar {name : String} {v : Value} {b b' : Binding}
      (hb : (r.scope s).vars.get? name = some b) (ha : b.assign name v = .ok b') :
      Edit allowed r s fun scope => scope.putVar name b'
  | setVar (name : String) (v : Value) : Edit allowed r s fun scope => scope.setVar name v
  | hoist (name : String) (v : Value) :
      Edit allowed r s fun scope =>
        if scope.vars.contains name then scope.setVar name v
        else (scope.putVar name (.init .varName v)).markHoisted name
  | dropVar (name : String) : Edit allowed r s fun scope => scope.dropVar name
  | link (o : ObjectId) : Edit allowed r s fun scope => { scope with linked := some o }

/-- One change of the scopes of a realm; its objects may change as well. -/
inductive ScopeStep (allowed : Request κ → Prop) (r r' : Realm κ) : Prop where
  | kept (ho : r'.options = r.options) (hs : r'.scopes = r.scopes)
  | added (ho : r'.options = r.options) {kind : ScopeKind} {outer : List ScopeId}
      (hs : r'.scopes = r.scopes.push (.make kind outer))
  | edited (ho : r'.options = r.options) {s : ScopeId} {f : Scope → Scope}
      (he : r.Edit allowed s f) (hs : r'.scopes = r.scopes.modify s.index f)

namespace ScopeStep

theorem options_eq (h : ScopeStep allowed r r') : r'.options = r.options := by
  cases h with
  | kept ho hs => exact ho
  | added ho hs => exact ho
  | edited ho he hs => exact ho

/-- Seen from one scope, a change of the scopes leaves it alone, adds it, or edits it. -/
theorem scope_cases (h : ScopeStep allowed r r') (t : ScopeId) :
    r'.scope t = r.scope t ∨
      (r.scope t = default ∧ ∃ kind outer, r'.scope t = .make kind outer) ∨
      ∃ f, r.Edit allowed t f ∧ r'.scope t = f (r.scope t) := by
  cases h with
  | kept ho hs =>
    left
    rw [scope, hs]
    rfl
  | @added ho kind outer hs =>
    by_cases ht : t.index = r.scopes.size
    · right
      left
      have hnone : r.scopes[t.index]? = none := Array.getElem?_eq_none (Nat.le_of_eq ht.symm)
      refine ⟨by rw [scope, hnone]; rfl, kind, outer, ?_⟩
      rw [scope, hs, Array.getElem?_push, if_pos ht]
      rfl
    · left
      rw [scope, hs, Array.getElem?_push, if_neg ht]
      rfl
  | @edited ho s f he hs =>
    have hscope : r'.scope t = (r.modifyScope s f).scope t := by
      rw [scope, hs]
      rfl
    rw [hscope]
    rcases scope_modifyScope_cases r s t f with heq | ⟨rfl, heq⟩
    · exact Or.inl heq
    · exact Or.inr (Or.inr ⟨f, he, heq⟩)

theorem modifyScope {s : ScopeId} {f : Scope → Scope} (he : r.Edit allowed s f) :
    ScopeStep allowed r (r.modifyScope s f) := .edited rfl he rfl

theorem sync (r : Realm κ) (o : ObjectId) (data : Object κ) (key : Text) :
    ScopeStep allowed r ((r.replaceObject o data).sync data key) := by
  unfold Realm.sync
  split
  · rename_i s v name _ _ _
    exact .edited rfl (.setVar (s := s) name v) rfl
  · exact .kept rfl rfl

theorem unlink (r : Realm κ) (o : ObjectId) (data : Object κ) (key : Text) :
    ScopeStep allowed r ((r.replaceObject o data).unlink data key) := by
  unfold Realm.unlink
  split
  · rename_i s name _ _
    exact .edited rfl (.dropVar (s := s) name) rfl
  · exact .kept rfl rfl

theorem publishLinked (h : ScopeStep allowed r r') (linked : Option ObjectId) (name : String)
    (v : Value) : ScopeStep allowed r (r'.publishLinked linked name v).2 := by
  have hpublish : (r'.publishLinked linked name v).2.options = r'.options ∧
      (r'.publishLinked linked name v).2.scopes = r'.scopes := by
    unfold Realm.publishLinked
    split
    · unfold publish
      split <;> exact ⟨rfl, rfl⟩
    · exact ⟨rfl, rfl⟩
  obtain ⟨ho, hs⟩ := hpublish
  cases h with
  | kept ho' hs' => exact .kept (ho.trans ho') (hs.trans hs')
  | added ho' hs' => exact .added (ho.trans ho') (hs.trans hs')
  | edited ho' he hs' => exact .edited (ho.trans ho') he (hs.trans hs')

theorem assign {o : ObjectId} {key : Text} {v : Value}
    (h : r.assign o key v = .ok (.stored r')) : ScopeStep allowed r r' := by
  obtain ⟨data, data', -, -, rfl⟩ := assign_eq_stored h
  exact sync r o data' key

theorem assignName {s : ScopeId} {name : String} {v : Value}
    (h : r.assignName s name v = .ok (.stored r')) : ScopeStep allowed r r' := by
  obtain ⟨t, -, hstores⟩ := assignIn_eq_stored h
  cases hstores with
  | lexical hb ha => exact modifyScope (.assignLexical hb ha)
  | var hb ha hl => exact modifyScope (.assignVar hb ha)
  | property hl ha => exact assign ha

theorem delete {o : ObjectId} {key : Text} {b : Bool} (h : r.delete o key = .ok (b, r')) :
    ScopeStep allowed r r' := by
  rcases delete_eq_ok h with rfl | ⟨data, data', -, ⟨-, rfl⟩ | ⟨-, rfl⟩⟩
  · exact .kept rfl rfl
  · exact unlink r o data' key
  · exact .kept rfl rfl

theorem declare (r : Realm κ) (s : ScopeId) (name : String) (kind : BindingKind) (v : Value) :
    ScopeStep allowed r (r.declare s name kind v).2 := by
  unfold Realm.declare
  dsimp only
  split
  · split
    · rename_i hall
      refine modifyScope (.declareLexical fun b hb => ?_)
      simpa [hb] using hall
    · exact .kept rfl rfl
  · rename_i hk
    rw [Bool.not_eq_true] at hk
    exact (modifyScope (.declareVar hk)).publishLinked _ name v

theorem setInScope (r : Realm κ) (s : ScopeId) (name : String) (v : Value) :
    ScopeStep allowed r (r.setInScope s name v).2 := by
  unfold Realm.setInScope
  dsimp only
  split
  · rename_i b hb
    split
    · rename_i b' ha
      exact modifyScope (.assignLexical hb ha)
    · exact .kept rfl rfl
  · split
    · rename_i b' hb'
      cases hget : (r.scope s).vars.get? name with
      | none =>
        rw [hget] at hb'
        rw [← Except.ok.inj hb']
        exact (modifyScope (.addVar name v)).publishLinked _ name v
      | some b =>
        rw [hget] at hb'
        exact (modifyScope (.assignVar hget hb')).publishLinked _ name v
    · exact .kept rfl rfl

theorem hoistFunction (r : Realm κ) (s : ScopeId) (name : String) (v : Value) :
    ScopeStep allowed r (r.hoistFunction s name v).2 := by
  unfold Realm.hoistFunction
  split
  · exact .kept rfl rfl
  · split
    · exact .kept rfl rfl
    · exact (modifyScope (.hoist name v)).publishLinked _ name v

theorem link (r : Realm κ) (s : ScopeId) (o : ObjectId) : ScopeStep allowed r (r.link s o) := by
  unfold Realm.link
  dsimp only
  split <;> exact .edited rfl (.link (s := s) o) rfl

theorem defineBuiltin (r : Realm κ) (name : String) (v : Value) :
    ScopeStep allowed r (r.defineBuiltin name v) :=
  .edited rfl (.addVar (s := r.globalScope) name v) rfl

/-- A variable that is declared anew may take its value from a property, which is a second edit. -/
theorem declareVar (r : Realm κ) (s : ScopeId) (name : String) (v : Value) (deletable : Bool) :
    ReflTransGen (ScopeStep allowed) r (r.declareVar s name v deletable).2 := by
  have hadd : ScopeStep allowed r
      (r.modifyScope s fun scope => scope.putVar name (.init .varName v)) :=
    modifyScope (.addVar name v)
  unfold Realm.declareVar
  dsimp only
  split
  · exact .refl
  split
  · exact .single hadd
  split
  · exact .single hadd
  split
  · split
    · exact (ReflTransGen.single hadd).tail (modifyScope (.setVar name _))
    · exact .single hadd
  · exact (ReflTransGen.single hadd).tail (.kept rfl rfl)

end ScopeStep

/-- A step takes the scopes through edits and additions only. -/
theorem Step.scopeSteps (h : Step allowed r r') : ReflTransGen (ScopeStep allowed) r r' := by
  cases h with
  | assign h => exact .single (.assign h)
  | assignName h => exact .single (.assignName h)
  | define ha h =>
    obtain ⟨data, data', -, -, rfl⟩ := define_eq_ok h
    exact .single (.sync r _ data' _)
  | delete ha h => exact .single (.delete h)
  | setPrototype ha h =>
    rcases setPrototype_eq_ok h with rfl | ⟨data, -, -, rfl⟩
    · exact .refl
    · exact .single (.kept rfl rfl)
  | preventExtensions ha h =>
    obtain ⟨data, -, rfl⟩ := preventExtensions_eq_ok h
    exact .single (.kept rfl rfl)
  | addScope ha => exact .single (.added rfl rfl)
  | createUninitialized ha => exact .single (.modifyScope (.register ha))
  | declare ha => exact .single (.declare r _ _ _ _)
  | setInScope ha => exact .single (.setInScope r _ _ _)
  | declareVar ha => exact ScopeStep.declareVar r _ _ _ _
  | hoistFunction ha => exact .single (.hoistFunction r _ _ _)
  | link ha => exact .single (.link r _ _)
  | defineBuiltin ha => exact .single (.defineBuiltin r _ _)
  -- all other steps are about objects, symbols and producers
  | _ => exact .single (.kept rfl rfl)

end Ecma.Realm
