import Ecma.Proofs.Watch

/-!
# Declarations

Four requests write a name of exactly one scope: declaring it, assigning to it there, declaring a
variable unless its name is taken, and hoisting a function. Each of them first writes the variable
(`Realm.varWrite?`) and only then turns to the object that stands in for the scope.
`Realm.Settles` lists what can come of that, and `Engine.perform_settles` is the one place where the
four operations are opened. A declaration that fails has therefore changed nothing, unless the
object was dead: then the variable has been written all the same.
-/

namespace Ecma

variable {κ σ : Type}

namespace Request

/-- The name that a request declares in a scope or assigns to there, with its value. -/
def declared? : Request κ → Option (String × Value)
  | declare _ name _ v | setInScope _ name v | declareVar _ name v _ | hoistFunction _ name v =>
    some (name, v)
  | _ => none

/-- Whether a declaration carries its value over to a property that is there already. Declaring a
variable unless its name is taken goes by the value of the property instead. -/
def publishes : Request κ → Bool
  | declare .. | setInScope .. | hoistFunction .. => true
  | _ => false

end Request

namespace Realm

/-- The scope whose variables a declaration writes, and how it writes them. There is none if the
declaration is refused, has nothing to do or is about a lexical name. -/
def varWrite? (r : Realm κ) : Request κ → Option (ScopeId × (Scope → Scope))
  | .declare s name kind v =>
    let scope := r.scope s
    if scope.isLexical kind then none
    else
      let b := redeclareVar (scope.vars.get? name) kind v
      some (s, fun scope => (scope.putVar name b).unmarkHoisted name)
  | .setInScope s name v =>
    let scope := r.scope s
    if scope.lexical.contains name then none
    else
      match (scope.vars.get? name).elim (.ok (.init .varName v)) (·.assign name v) with
      | .ok b => some (s, fun scope => scope.putVar name b)
      | .error _ => none
  | .declareVar s name v _ =>
    if (r.scope s).declares name then none
    else some (s, fun scope => scope.putVar name (.init .varName v))
  | .hoistFunction block name v =>
    if r.options.strict || !r.options.hoisting then none
    else
      (r.hoistTarget? name (r.scope block).outer).map fun s =>
        (s, fun scope =>
          if scope.vars.contains name then scope.setVar name v
          else (scope.putVar name (.init .varName v)).markHoisted name)
  | _ => none

/-- What a declaration comes to: the fault that it ends with, if it fails, and the realm that it
leaves behind. -/
inductive Settles (r : Realm κ) (req : Request κ) (name : String) (v : Value) :
    Option Fault → Realm κ → Prop where
  | kept (hw : r.varWrite? req = none) (f : Option Fault) : Settles r req name v f r
  | lexical (hw : r.varWrite? req = none) (s : ScopeId) (b : Binding) :
      Settles r req name v none (r.modifyScope s fun scope => scope.putLexical name b)
  | unlinked {s : ScopeId} {write : Scope → Scope} (hw : r.varWrite? req = some (s, write))
      (hl : (r.scope s).linked = none) : Settles r req name v none (r.modifyScope s write)
  | dead {s : ScopeId} {write : Scope → Scope} {o : ObjectId}
      (hw : r.varWrite? req = some (s, write)) (hl : (r.scope s).linked = some o)
      (hd : r.heap.get? o = none) :
      Settles r req name v (some (.collected o)) (r.modifyScope s write)
  | published {s : ScopeId} {write : Scope → Scope} {o : ObjectId} {data : Object κ}
      (hp : req.publishes = true) (hw : r.varWrite? req = some (s, write))
      (hl : (r.scope s).linked = some o) (hd : r.heap.get? o = some data) :
      Settles r req name v none ((r.modifyScope s write).replaceObject o
        (data.putProperty (.ofString name) (((data.properties.get? (.ofString name)).map
          (·.withValue v)).getD (.data v true true false))))
  | adopted {s : ScopeId} {write : Scope → Scope} {o : ObjectId} {data : Object κ} {p : Property}
      {r' : Realm κ} (hp : req.publishes = false) (hw : r.varWrite? req = some (s, write))
      (hl : (r.scope s).linked = some o) (hd : r.heap.get? o = some data)
      (hown : data.own? (.ofString name) = some p)
      (hr : r' = r.modifyScope s write ∨ ∃ u, p.value? = some u ∧
        r' = (r.modifyScope s write).modifyScope s fun scope => scope.setVar name u) :
      Settles r req name v none r'
  | added {s : ScopeId} {write : Scope → Scope} {o : ObjectId} {data : Object κ}
      (hp : req.publishes = false) (hw : r.varWrite? req = some (s, write))
      (hl : (r.scope s).linked = some o) (hd : r.heap.get? o = some data)
      (hown : data.own? (.ofString name) = none) (deletable : Bool) :
      Settles r req name v none ((r.modifyScope s write).replaceObject o
        (data.putProperty (.ofString name) (.data v true true deletable)))

end Realm

/-! ## The four operations -/

/-- The fault of a failed operation. -/
def Except.fault? {α : Type} : Except Fault α → Option Fault
  | .ok _ => none
  | .error f => some f

namespace Realm

variable {r : Realm κ} {req : Request κ} {name : String} {v : Value}

/-- Writing a variable and carrying it over to the object that is linked to the scope. -/
theorem settles_publishLinked {s : ScopeId} {write : Scope → Scope} (hp : req.publishes = true)
    (hw : r.varWrite? req = some (s, write)) (name : String) (v : Value) :
    r.Settles req name v
      (Except.fault? ((r.modifyScope s write).publishLinked (r.scope s).linked name v).1)
      ((r.modifyScope s write).publishLinked (r.scope s).linked name v).2 := by
  unfold publishLinked
  split
  · rename_i o hl
    unfold publish
    rw [heap_modifyScope]
    split
    · rename_i hd
      exact .dead hw hl hd
    · rename_i data hd
      have hsettles := @Settles.published κ r req name v s write o data hp hw hl hd
      cases hget : data.properties.get? (.ofString name) with
      | none =>
        rw [hget] at hsettles
        simp only [hget]
        exact hsettles
      | some p =>
        rw [hget] at hsettles
        simp only [hget]
        exact hsettles
  · rename_i hl
    exact .unlinked hw hl

theorem settles_declare (r : Realm κ) (s : ScopeId) (name : String) (kind : BindingKind)
    (v : Value) :
    r.Settles (.declare s name kind v) name v (Except.fault? (r.declare s name kind v).1)
      (r.declare s name kind v).2 := by
  unfold declare
  dsimp only
  split
  · rename_i hk
    have hw : r.varWrite? (.declare s name kind v) = none := if_pos hk
    split
    · exact .lexical hw s _
    · exact .kept hw _
  · rename_i hk
    refine settles_publishLinked rfl ?_ name v
    exact if_neg hk

theorem settles_setInScope (r : Realm κ) (s : ScopeId) (name : String) (v : Value) :
    r.Settles (.setInScope s name v) name v (Except.fault? (r.setInScope s name v).1)
      (r.setInScope s name v).2 := by
  unfold setInScope
  dsimp only
  split
  · rename_i b hb
    have hw : r.varWrite? (.setInScope s name v) = none := by
      simp [varWrite?, OrderedMap.contains, hb]
    split
    · exact .lexical hw s _
    · exact .kept hw _
  · rename_i hlex
    split
    · rename_i b hb
      refine settles_publishLinked rfl ?_ name v
      simp [varWrite?, OrderedMap.contains, hlex, hb]
    · rename_i f hf
      refine .kept ?_ _
      simp [varWrite?, OrderedMap.contains, hlex, hf]

theorem settles_declareVar (r : Realm κ) (s : ScopeId) (name : String) (v : Value)
    (deletable : Bool) :
    r.Settles (.declareVar s name v deletable) name v
      (Except.fault? (r.declareVar s name v deletable).1) (r.declareVar s name v deletable).2 := by
  unfold declareVar
  dsimp only
  split
  · rename_i hdec
    have hw : r.varWrite? (.declareVar s name v deletable) = none := if_pos hdec
    exact .kept hw _
  rename_i hdec
  have hw : r.varWrite? (.declareVar s name v deletable) =
      some (s, fun scope => scope.putVar name (.init .varName v)) := if_neg hdec
  split
  · rename_i hl
    exact .unlinked hw hl
  rename_i o hl
  rw [heap_modifyScope]
  split
  · rename_i hd
    exact .dead hw hl hd
  rename_i data hd
  split
  · rename_i p hown
    split
    · rename_i u hu
      exact .adopted rfl hw hl hd hown (Or.inr ⟨u, hu, rfl⟩)
    · exact .adopted rfl hw hl hd hown (Or.inl rfl)
  · rename_i hown
    exact .added rfl hw hl hd hown deletable

theorem settles_hoistFunction (r : Realm κ) (block : ScopeId) (name : String) (v : Value) :
    r.Settles (.hoistFunction block name v) name v
      (Except.fault? (r.hoistFunction block name v).1) (r.hoistFunction block name v).2 := by
  unfold hoistFunction
  split
  · rename_i hoff
    have hw : r.varWrite? (.hoistFunction block name v) = none := if_pos hoff
    exact .kept hw _
  rename_i hon
  split
  · rename_i ht
    refine .kept ?_ _
    rw [varWrite?, if_neg hon, ht]
    rfl
  · rename_i s ht
    have hw : r.varWrite? (.hoistFunction block name v) = some (s, fun scope =>
        if scope.vars.contains name then scope.setVar name v
        else (scope.putVar name (.init .varName v)).markHoisted name) := by
      rw [varWrite?, if_neg hon, ht]
      rfl
    have hsettles := settles_publishLinked rfl hw name v
    dsimp only
    generalize (r.modifyScope s _).publishLinked (r.scope s).linked name v = result at hsettles ⊢
    obtain ⟨answer, r'⟩ := result
    cases answer with
    | ok _ => exact hsettles
    | error f => exact hsettles

/-- Writing a variable links nothing. -/
theorem linked_of_varWrite? {s : ScopeId} {write : Scope → Scope}
    (hw : r.varWrite? req = some (s, write)) (scope : Scope) :
    (write scope).linked = scope.linked := by
  cases req with
  | declare t x kind u =>
    obtain ⟨-, hw⟩ := Option.ite_none_left_eq_some.1 hw
    obtain ⟨rfl, rfl⟩ := Prod.mk.inj (Option.some.inj hw)
    rfl
  | setInScope t x u =>
    obtain ⟨-, hw⟩ := Option.ite_none_left_eq_some.1 hw
    split at hw
    · obtain ⟨rfl, rfl⟩ := Prod.mk.inj (Option.some.inj hw)
      rfl
    · cases hw
  | declareVar t x u deletable =>
    obtain ⟨-, hw⟩ := Option.ite_none_left_eq_some.1 hw
    obtain ⟨rfl, rfl⟩ := Prod.mk.inj (Option.some.inj hw)
    rfl
  | hoistFunction block x u =>
    obtain ⟨-, hw⟩ := Option.ite_none_left_eq_some.1 hw
    obtain ⟨t, -, ht⟩ := Option.map_eq_some_iff.1 hw
    obtain ⟨rfl, rfl⟩ := Prod.mk.inj ht
    dsimp only
    split
    · rfl
    · rfl
  | _ => cases hw

/-- The variable that a declaration writes has the declared value. -/
theorem var_of_varWrite? {s : ScopeId} {write : Scope → Scope}
    (hw : r.varWrite? req = some (s, write)) (hreq : req.declared? = some (name, v)) :
    ∃ b, (write (r.scope s)).vars.get? name = some b ∧ b.value = v := by
  cases req with
  | declare t x kind u =>
    obtain ⟨rfl, rfl⟩ := Prod.mk.inj (Option.some.inj hreq)
    obtain ⟨-, hw⟩ := Option.ite_none_left_eq_some.1 hw
    obtain ⟨rfl, rfl⟩ := Prod.mk.inj (Option.some.inj hw)
    refine ⟨redeclareVar ((r.scope t).vars.get? x) kind u, ?_, ?_⟩
    · simp [Scope.putVar, Scope.unmarkHoisted, OrderedMap.get?_insert]
    · unfold redeclareVar
      split <;> rfl
  | setInScope t x u =>
    obtain ⟨rfl, rfl⟩ := Prod.mk.inj (Option.some.inj hreq)
    obtain ⟨-, hw⟩ := Option.ite_none_left_eq_some.1 hw
    split at hw
    · rename_i b hb
      obtain ⟨rfl, rfl⟩ := Prod.mk.inj (Option.some.inj hw)
      refine ⟨b, by simp [Scope.putVar, OrderedMap.get?_insert], ?_⟩
      cases hget : (r.scope t).vars.get? x with
      | none =>
        rw [hget] at hb
        rw [← Except.ok.inj hb]
        rfl
      | some c =>
        rw [hget] at hb
        exact Binding.value_of_assign hb
    · cases hw
  | declareVar t x u deletable =>
    obtain ⟨rfl, rfl⟩ := Prod.mk.inj (Option.some.inj hreq)
    obtain ⟨-, hw⟩ := Option.ite_none_left_eq_some.1 hw
    obtain ⟨rfl, rfl⟩ := Prod.mk.inj (Option.some.inj hw)
    exact ⟨.init .varName u, by simp [Scope.putVar, OrderedMap.get?_insert], rfl⟩
  | hoistFunction block x u =>
    obtain ⟨rfl, rfl⟩ := Prod.mk.inj (Option.some.inj hreq)
    obtain ⟨-, hw⟩ := Option.ite_none_left_eq_some.1 hw
    obtain ⟨t, -, ht⟩ := Option.map_eq_some_iff.1 hw
    obtain ⟨rfl, rfl⟩ := Prod.mk.inj ht
    dsimp only
    split
    · rename_i hvar
      obtain ⟨b, hb⟩ := Option.isSome_iff_exists.1 hvar
      exact ⟨b.withValue u, by simp [Scope.setVar, OrderedMap.get?_modify, hb], rfl⟩
    · exact ⟨.init .varName u, by
        simp [Scope.putVar, Scope.markHoisted, OrderedMap.get?_insert], rfl⟩
  | _ => cases hreq

end Realm

/-! ## Failed declarations -/

/-- The fault that an action ends with. -/
def Outcome.fault? {α : Type} : Outcome α → Option Fault
  | .failed f => some f
  | .done _ | .diverged => none

/-- A declaration writes a variable of a scope although the object that is linked to the scope is
dead. -/
structure Realm.WritesPastDead (r : Realm κ) (req : Request κ) (s : ScopeId)
    (write : Scope → Scope) (o : ObjectId) : Prop where
  writes : r.varWrite? req = some (s, write)
  linked : (r.scope s).linked = some o
  dead : r.heap.get? o = none

theorem Realm.Settles.changeAndTry {α : Type} {f : Realm κ → Except Fault α × Realm κ}
    {w : World κ σ} {req : Request κ} {name : String} {v : Value}
    (h : w.realm.Settles req name v (Except.fault? (f w.realm).1) (f w.realm).2) :
    w.realm.Settles req name v (Action.changeAndTry f w).1.fault?
        (Action.changeAndTry f w).2.realm ∧
      (Action.changeAndTry f w).2.host = w.host := by
  obtain ⟨r, host⟩ := w
  unfold Action.changeAndTry
  dsimp only at h ⊢
  generalize f r = result at h
  obtain ⟨answer, r'⟩ := result
  cases answer with
  | ok a => exact ⟨h, rfl⟩
  | error fault => exact ⟨h, rfl⟩

namespace Engine

variable {e : Engine κ σ} {req : Request κ} {w : World κ σ} {name : String} {v : Value} {f : Fault}

/-- A declaration settles its name, and it does not touch the memory of the host. -/
theorem perform_settles (hreq : req.declared? = some (name, v)) :
    w.realm.Settles req name v (e.perform req w).1.fault? (e.perform req w).2.realm ∧
      (e.perform req w).2.host = w.host := by
  cases req with
  | declare s x kind u =>
    obtain ⟨rfl, rfl⟩ := Prod.mk.inj (Option.some.inj hreq)
    exact (w.realm.settles_declare s x kind u).changeAndTry
  | setInScope s x u =>
    obtain ⟨rfl, rfl⟩ := Prod.mk.inj (Option.some.inj hreq)
    exact (w.realm.settles_setInScope s x u).changeAndTry
  | declareVar s x u deletable =>
    obtain ⟨rfl, rfl⟩ := Prod.mk.inj (Option.some.inj hreq)
    exact (w.realm.settles_declareVar s x u deletable).changeAndTry
  | hoistFunction s x u =>
    obtain ⟨rfl, rfl⟩ := Prod.mk.inj (Option.some.inj hreq)
    exact (w.realm.settles_hoistFunction s x u).changeAndTry
  | _ => cases hreq

/-- A declaration that fails leaves the world as it was, unless it has a variable to write and the
object that is linked to the scope is dead. Then the dead object is the fault, and the variable has
been written: it is the only thing that has changed. -/
theorem failed_declaration_leaves (hreq : req.declared? = some (name, v))
    (hf : (e.perform req w).1 = .failed f) :
    ((∀ s write o, ¬w.realm.WritesPastDead req s write o) → (e.perform req w).2 = w) ∧
      ∀ s write o, w.realm.WritesPastDead req s write o →
        f = .collected o ∧ (e.perform req w).2 = ⟨w.realm.modifyScope s write, w.host⟩ ∧
          ∃ b, ((e.perform req w).2.realm.scope s).vars.get? name = some b ∧ b.value = v := by
  obtain ⟨hsettles, hhost⟩ := perform_settles (e := e) (w := w) hreq
  generalize hrun : e.perform req w = run at hf hsettles hhost ⊢
  obtain ⟨outcome, r', host⟩ := run
  obtain rfl : outcome = .failed f := hf
  obtain rfl : host = w.host := hhost
  change w.realm.Settles req name v (some f) r' at hsettles
  cases hsettles with
  | kept hw =>
    refine ⟨fun _ => rfl, fun s write o h => ?_⟩
    cases hw.symm.trans h.writes
  | @dead s write o hw hl hd =>
    refine ⟨fun h => absurd ⟨hw, hl, hd⟩ (h s write o), fun t write' p h => ?_⟩
    obtain ⟨rfl, rfl⟩ := Prod.mk.inj (Option.some.inj (hw.symm.trans h.writes))
    obtain rfl := Option.some.inj (hl.symm.trans h.linked)
    refine ⟨rfl, rfl, ?_⟩
    show ∃ b, ((w.realm.modifyScope s write).scope s).vars.get? name = some b ∧ b.value = v
    rw [Realm.scope_modifyScope_self (Realm.index_lt_of_linked hl)]
    exact Realm.var_of_varWrite? hw hreq

/-- A lexical name is not declared twice, and the second declaration changes nothing. -/
theorem failed_declaration_leaves_refused :
    let r : Realm Unit := (Realm.fresh {}).answer (.declare ⟨0⟩ "x" .letName .null)
    let req : Request Unit := .declare ⟨0⟩ "x" .letName (.boolean true)
    let e : Engine Unit Unit := Library.silent.engine 1
    Realm.Reached (fun _ => True) {} r ∧
      (∀ s write o, ¬r.WritesPastDead req s write o) ∧
      (e.perform req ⟨r, ()⟩).1 = .failed (.alreadyDeclared "x") ∧
      (e.perform req ⟨r, ()⟩).2 = ⟨r, ()⟩ := by
  intro r req e
  have hr : Realm.Reached (fun _ => True) {} r :=
    Realm.Reached.fresh.requests [_] fun _ _ => trivial
  have hdead : ∀ s write o, ¬r.WritesPastDead req s write o := fun s write o h => by
    cases h.writes
  have hf : (e.perform req ⟨r, ()⟩).1 = .failed (.alreadyDeclared "x") := rfl
  exact ⟨hr, hdead, hf, (failed_declaration_leaves (w := ⟨r, ()⟩) rfl hf).1 hdead⟩

/-- A scope may be linked to a handle without an object. Declaring a variable there fails, and yet
the variable is declared. -/
theorem variable_declared_by_failure :
    let r : Realm Unit := [.addScope .function (some ⟨0⟩), .link ⟨1⟩ ⟨99⟩].foldl Realm.answer
      (Realm.fresh {})
    let e : Engine Unit Unit := Library.silent.engine 1
    let result := e.perform (.declare ⟨1⟩ "x" .varName (.boolean true)) ⟨r, ()⟩
    Realm.Reached (fun _ => True) {} r ∧ result.1 = .failed (.collected ⟨99⟩) ∧
      (r.scope ⟨1⟩).vars.get? "x" = none ∧
      (result.2.realm.scope ⟨1⟩).vars.get? "x" = some (.init .varName (.boolean true)) := by
  intro r e result
  have hr : Realm.Reached (fun _ => True) {} r :=
    Realm.Reached.fresh.requests _ fun _ _ => trivial
  have hf : result.1 = .failed (.collected ⟨99⟩) := rfl
  refine ⟨hr, hf, ?_, ?_⟩
  · decide +kernel
  · decide +kernel

end Engine

end Ecma
