import Ecma.Proofs.Lineage

/-!
# Watched runs

Handles outlive their objects, so what a realm promises may depend on which handles it is given and
when. A permission says which requests may be made of a realm, `Realm.permits` being the one that
asks all handles to belong to objects that live. A library can be run under watch: the run does not
go on past a request of user code that is not permitted, or past a dead handle that user code
returns. A run is careful if watching it makes no difference (`Library.Careful`), and
`Realm.ReachedUnder` are the realms that careful runs lead to.
-/

namespace Ecma

variable {κ σ α : Type}

namespace Request

/-- The values that a request hands over. -/
def values : Request κ → List Value
  | create _ prototype => prototype.toList.map Value.object
  | createArray elements => elements.toList
  | createFunction f => f.captures
  | createConstructor f g => f.captures ++ g.captures
  | get o _ receiver => [.object o, receiver]
  | set o _ v | writeHidden o _ v | writeSlot o _ v => [.object o, v]
  | define o _ d => .object o :: (d.value.toList ++ d.get.toList ++ d.set.toList)
  | delete o _ | preventExtensions o | iteratorNext o | link _ o => [.object o]
  | setPrototype o proto | writePrototype o proto => .object o :: proto.toList.map Value.object
  | writeElements o elements => .object o :: (elements.map Array.toList).getD []
  | call f this args => f :: this :: args
  | construct f args => f :: args
  | toText v | toNumber v | toPropertyKey v | toPrimitive v _ | declare _ _ _ v | setBinding _ _ v
  | setInScope _ _ v | declareVar _ _ v _ | hoistFunction _ _ v | defineBuiltin _ v
  | errorValue (.thrown v) => [v]
  | looselyEqual a b => [a, b]
  | collect _ values | collectIfDue _ values => values
  | createError .. | createIterator .. | createSymbol .. | errorValue .. | addScope ..
  | createUninitialized .. | getBinding .. => []

/-- Whether the request writes a field of an object past all checks. -/
def writesField : Request κ → Bool
  | writeHidden .. | writePrototype .. | writeSlot .. | writeElements .. => true
  | _ => false

end Request

namespace Realm

/-- The request hands over no dead handle and writes no field past the checks. -/
def permits (r : Realm κ) (req : Request κ) : Bool :=
  !req.writesField && req.values.all r.heap.holds

/-- The values that linking a scope takes from its variables, which nobody hands over. -/
def carried (r : Realm κ) : Request κ → List Value
  | .link s _ => (r.scope s).vars.values.map Binding.value
  | _ => []

/-- Besides, a scope is linked only while its variables hold no dead handle either. -/
def permitsLinks (r : Realm κ) (req : Request κ) : Bool :=
  r.permits req && (r.carried req).all r.heap.holds

theorem permitsLinks_iff {r : Realm κ} {req : Request κ} :
    r.permitsLinks req = true ↔
      req.writesField = false ∧ (∀ v ∈ req.values, r.heap.holds v = true) ∧
        ∀ v ∈ r.carried req, r.heap.holds v = true := by
  simp only [permitsLinks, permits, Bool.and_eq_true, Bool.not_eq_true', List.all_eq_true,
    and_assoc]

end Realm

namespace Action

/-- The action where it may start, and else one that does not end. -/
def guard (ok : Realm κ → Bool) (m : Action κ σ α) : Action κ σ α := fun w =>
  if ok w.realm then m w else (.diverged, w)

/-- The action, which does not end where its result is not accepted. -/
def ensure (ok : Realm κ → α → Bool) (m : Action κ σ α) : Action κ σ α :=
  m.bind fun a => guard (ok · a) (pure a)

end Action

namespace Library

/-- The engine that runs programs of the library under watch. -/
def watched (lib : Library κ σ) (permits : Realm κ → Request κ → Bool) : Nat → Engine κ σ
  | 0 => lib.engine 0
  | depth + 1 =>
    let perform (req : Request κ) : Action κ σ req.Reply :=
      ((lib.watched permits depth).perform req).guard (permits · req)
    { apply := fun c this args =>
        ((lib.apply c this args).run perform).ensure fun r v => r.heap.holds v
      produce := fun c i =>
        ((lib.produce c i).run perform).ensure fun r item => item.all r.heap.holds
      text := fun v => (lib.watched permits depth).toText v }

/-- Watching makes no difference: each request that user code makes is permitted when it is made,
and each handle that user code returns belongs to an object that lives then. -/
def Careful (lib : Library κ σ) (permits : Realm κ → Request κ → Bool) (depth : Nat)
    (req : Request κ) (w : World κ σ) : Prop :=
  (lib.watched permits depth).perform req w = (lib.engine depth).perform req w

/-- The library whose programs do nothing. -/
def silent : Library κ Unit := ⟨fun _ _ _ => .pure .undefined, fun _ _ => .pure none⟩

theorem asksOnly_silent (allowed : Request κ → Prop) : silent.AsksOnly allowed :=
  ⟨fun _ _ _ => trivial, fun _ _ => trivial⟩

/-- Where user code does nothing, nothing has to be watched. -/
theorem watched_silent (permits : Realm κ → Request κ → Bool) (depth : Nat) :
    silent.watched permits depth = silent.engine depth := by
  induction depth with
  | zero => rfl
  | succ depth ih =>
    rw [watched, engine, ih]
    rfl

end Library

namespace Realm

/-- The realms that can be met when all requests are permitted and all runs of user code careful:
the fresh one, those that a request leaves behind, and those that differ from them by what is noted
down around user code, which are met in the middle of a request. -/
inductive ReachedUnder (permits : Realm κ → Request κ → Bool) (options : Options) :
    Realm κ → Prop where
  | fresh : ReachedUnder permits options (.fresh options)
  | request {σ : Type} (lib : Library κ σ) (depth : Nat) {req : Request κ} {w : World κ σ}
      (h : ReachedUnder permits options w.realm) (hp : permits w.realm req = true)
      (hc : lib.Careful permits depth req w) :
      ReachedUnder permits options ((lib.engine depth).perform req w).2.realm
  | noted {r r' : Realm κ} (h : ReachedUnder permits options r)
      (hn : ∀ S : Realm κ → Realm κ → Prop, Bookkeeping S → S r r') :
      ReachedUnder permits options r'

/-! ## Requests with silent user code -/

/-- The realm behind a request when user code does nothing. -/
def answer (r : Realm κ) (req : Request κ) : Realm κ :=
  ((Library.silent.engine 1).perform req ⟨r, ()⟩).2.realm

/-- Each of some requests is permitted when the ones before it are answered. -/
def permitsAll (permits : Realm κ → Request κ → Bool) : Realm κ → List (Request κ) → Bool
  | _, [] => true
  | r, req :: rest => permits r req && permitsAll permits (r.answer req) rest

section Answers

variable {permits : Realm κ → Request κ → Bool} {options : Options} {r : Realm κ}

theorem ReachedUnder.answer (h : ReachedUnder permits options r) {req : Request κ}
    (hp : permits r req = true) : ReachedUnder permits options (r.answer req) := by
  refine .request Library.silent 1 (w := ⟨r, ()⟩) h hp ?_
  rw [Library.Careful, Library.watched_silent]

theorem ReachedUnder.requests (h : ReachedUnder permits options r) {reqs : List (Request κ)}
    (hp : permitsAll permits r reqs = true) :
    ReachedUnder permits options (reqs.foldl Realm.answer r) := by
  induction reqs generalizing r with
  | nil => exact h
  | cons req rest ih =>
    rw [permitsAll, Bool.and_eq_true] at hp
    exact ih (h.answer hp.1) hp.2

theorem Reached.requests {allowed : Request κ → Prop} (h : Reached allowed options r)
    (reqs : List (Request κ)) (ha : ∀ req ∈ reqs, allowed req) :
    Reached allowed options (reqs.foldl Realm.answer r) := by
  induction reqs generalizing r with
  | nil => exact h
  | cons req rest ih =>
    have hanswer : Reached allowed options (r.answer req) :=
      .request (Library.asksOnly_silent allowed) 1 (ha req List.mem_cons_self) (w := ⟨r, ()⟩) h
    exact ih hanswer fun later hlater => ha later (List.mem_cons_of_mem _ hlater)

end Answers

end Realm

end Ecma
