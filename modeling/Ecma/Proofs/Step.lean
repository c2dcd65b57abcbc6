import Ecma.Engine.Perform
import Ecma.Realm.Fresh
import Mathlib.Logic.Relation

/-!
# What a request can do to a realm

`Realm.Step` lists the changes that a realm can undergo at once: one for each request that runs no
user code, and the bookkeeping around user code. The main result `Engine.perform_takes` says that a
request, whatever user code it runs, how often that code fails and how deep it nests, takes a realm
through such steps only. An invariant of steps is therefore an invariant of every realm that a
program can meet (`Realm.Reached.induction`).

Steps and programs are restricted to the requests of a set `allowed`, so that an invariant may leave
out the requests that break it.
-/

namespace Ecma

open Relation

variable {κ σ α β : Type}

/-- A program makes only allowed requests, whatever it sees and is answered. -/
def Program.AsksOnly (allowed : Request κ → Prop) : Program κ σ α → Prop
  | pure _ => True
  | fail _ => True
  | look k => ∀ w, (k w).AsksOnly allowed
  | store _ next => next.AsksOnly allowed
  | ask r k => allowed r ∧ ∀ reply, (k reply).AsksOnly allowed

/-- The programs of a library make only allowed requests. -/
structure Library.AsksOnly (allowed : Request κ → Prop) (lib : Library κ σ) : Prop where
  apply : ∀ c this args, (lib.apply c this args).AsksOnly allowed
  produce : ∀ c i, (lib.produce c i).AsksOnly allowed

namespace Realm

/-- One change of a realm. Changes that only one request makes ask for that request to be allowed;
objects and errors are also made on behalf of other requests, and a stored value may come from an
assignment to a property or to a name. -/
inductive Step (allowed : Request κ → Prop) : Realm κ → Realm κ → Prop where
  | create (r : Realm κ) (kind : ObjectKind) (prototype : Option ObjectId) :
      Step allowed r (r.create kind prototype).2
  | createArray {r : Realm κ} {elements : Array Value} (ha : allowed (.createArray elements)) :
      Step allowed r (r.createArray elements).2
  | createFunction {r : Realm κ} {f : Callable κ} (ha : allowed (.createFunction f)) :
      Step allowed r (r.createFunction f).2
  | createConstructor {r : Realm κ} {call construct : Callable κ}
      (ha : allowed (.createConstructor call construct)) :
      Step allowed r (r.createConstructor call construct).2
  | createError (r : Realm κ) (kind : ErrorKind) (message : String) :
      Step allowed r (r.createError kind message).2
  | createIterator {r : Realm κ} {code : κ} (ha : allowed (.createIterator code)) :
      Step allowed r (r.createIterator code).2
  | createSymbol {r : Realm κ} {description : Option Text}
      (ha : allowed (.createSymbol description)) : Step allowed r (r.createSymbol description).2
  | assign {r r' : Realm κ} {o : ObjectId} {key : Text} {v : Value}
      (h : r.assign o key v = .ok (.stored r')) : Step allowed r r'
  | assignName {r r' : Realm κ} {s : ScopeId} {name : String} {v : Value}
      (h : r.assignName s name v = .ok (.stored r')) : Step allowed r r'
  | define {r r' : Realm κ} {o : ObjectId} {key : Text} {d : Descriptor}
      (ha : allowed (.define o key d)) (h : r.define o key d = .ok r') : Step allowed r r'
  | delete {r r' : Realm κ} {o : ObjectId} {key : Text} {b : Bool}
      (ha : allowed (.delete o key)) (h : r.delete o key = .ok (b, r')) : Step allowed r r'
  | setPrototype {r r' : Realm κ} {o : ObjectId} {proto : Option ObjectId} {b : Bool}
      (ha : allowed (.setPrototype o proto)) (h : r.setPrototype o proto = .ok (b, r')) :
      Step allowed r r'
  | preventExtensions {r r' : Realm κ} {o : ObjectId} (ha : allowed (.preventExtensions o))
      (h : r.preventExtensions o = .ok r') : Step allowed r r'
  | writeHidden {r : Realm κ} {o : ObjectId} {key : Text} {v : Value}
      (ha : allowed (.writeHidden o key v)) :
      Step allowed r (r.modifyObject o (·.putHidden key v))
  | writePrototype {r : Realm κ} {o : ObjectId} {proto : Option ObjectId}
      (ha : allowed (.writePrototype o proto)) :
      Step allowed r (r.modifyObject o fun data => { data with prototype := proto })
  | writeSlot {r : Realm κ} {o : ObjectId} {name : String} {v : Value}
      (ha : allowed (.writeSlot o name v)) :
      Step allowed r (r.modifyObject o fun data => { data with slots := data.slots.insert name v })
  | writeElements {r : Realm κ} {o : ObjectId} {elements : Option (Array Value)}
      (ha : allowed (.writeElements o elements)) :
      Step allowed r (r.modifyObject o fun data => { data with elements := elements })
  | addScope {r : Realm κ} {kind : ScopeKind} {parent : Option ScopeId}
      (ha : allowed (.addScope kind parent)) : Step allowed r (r.addScope kind parent).2
  | createUninitialized {r : Realm κ} {s : ScopeId} {name : String} {kind : BindingKind}
      (ha : allowed (.createUninitialized s name kind)) :
      Step allowed r (r.createUninitialized s name kind)
  | declare {r : Realm κ} {s : ScopeId} {name : String} {kind : BindingKind} {v : Value}
      (ha : allowed (.declare s name kind v)) : Step allowed r (r.declare s name kind v).2
  | setInScope {r : Realm κ} {s : ScopeId} {name : String} {v : Value}
      (ha : allowed (.setInScope s name v)) : Step allowed r (r.setInScope s name v).2
  | declareVar {r : Realm κ} {s : ScopeId} {name : String} {v : Value} {deletable : Bool}
      (ha : allowed (.declareVar s name v deletable)) :
      Step allowed r (r.declareVar s name v deletable).2
  | hoistFunction {r : Realm κ} {s : ScopeId} {name : String} {v : Value}
      (ha : allowed (.hoistFunction s name v)) : Step allowed r (r.hoistFunction s name v).2
  | link {r : Realm κ} {s : ScopeId} {o : ObjectId} (ha : allowed (.link s o)) :
      Step allowed r (r.link s o)
  | defineBuiltin {r : Realm κ} {name : String} {v : Value} (ha : allowed (.defineBuiltin name v)) :
      Step allowed r (r.defineBuiltin name v)
  | collect (r : Realm κ) (scopes : List ScopeId) (values : List Value) :
      Step allowed r (r.collect scopes values).2
  | startProducer (r : Realm κ) (p : ProducerId) : Step allowed r (r.startProducer p)
  | stopProducer (r : Realm κ) (p : ProducerId) : Step allowed r (r.stopProducer p)
  | exhaust (r : Realm κ) (o : ObjectId) (p : ProducerId) : Step allowed r (Engine.exhaust o p r)
  | enterJoin (r : Realm κ) (o : ObjectId) : Step allowed r { r with joining := o :: r.joining }
  | leaveJoin (r : Realm κ) : Step allowed r { r with joining := r.joining.tail }

/-- The changes that are made around user code: producers are started and stopped, iterators are
exhausted, and arrays are noted while they are joined. -/
structure Bookkeeping (S : Realm κ → Realm κ → Prop) : Prop where
  startProducer : ∀ r p, S r (r.startProducer p)
  stopProducer : ∀ r p, S r (r.stopProducer p)
  exhaust : ∀ r o p, S r (Engine.exhaust o p r)
  enterJoin : ∀ (r : Realm κ) o, S r { r with joining := o :: r.joining }
  leaveJoin : ∀ r : Realm κ, S r { r with joining := r.joining.tail }

theorem bookkeeping_step (allowed : Request κ → Prop) : Bookkeeping (Step allowed) :=
  ⟨.startProducer, .stopProducer, .exhaust, .enterJoin, .leaveJoin⟩

end Realm

/-! ## Actions that only take steps -/

namespace Action

/-- The realm that an action leaves behind, however it ends, is reached by steps. -/
def Takes (S : Realm κ → Realm κ → Prop) (m : Action κ σ α) : Prop :=
  ∀ w, ReflTransGen S w.realm (m w).2.realm

variable {S : Realm κ → Realm κ → Prop}

theorem takes_pure (a : α) : Takes S (Pure.pure a : Action κ σ α) := fun _ => .refl

theorem takes_fail (f : Fault) : Takes S (fail f : Action κ σ α) := fun _ => .refl

theorem takes_diverge : Takes S (diverge : Action κ σ α) := fun _ => .refl

theorem takes_realm : Takes S (realm : Action κ σ (Realm κ)) := fun _ => .refl

theorem takes_ofExcept (e : Except Fault α) : Takes S (ofExcept e : Action κ σ α) := by
  cases e with
  | ok a => exact takes_pure a
  | error f => exact takes_fail f

theorem takes_read (f : Realm κ → Except Fault α) : Takes S (read f : Action κ σ α) :=
  fun w => takes_ofExcept (f w.realm) w

theorem takes_bind {m : Action κ σ α} {f : α → Action κ σ β} (hm : Takes S m)
    (hf : ∀ a, Takes S (f a)) : Takes S (m >>= f) := by
  intro w
  show ReflTransGen S w.realm (bind m f w).2.realm
  have h := hm w
  unfold bind
  split
  · rename_i a w' heq
    rw [heq] at h
    exact h.trans (hf a w')
  · rename_i fault w' heq
    rw [heq] at h
    exact h
  · rename_i w' heq
    rw [heq] at h
    exact h

/-- What follows a look at the realm starts in the very realm that was looked at. -/
theorem takes_read_bind {f : Realm κ → Except Fault α} {g : α → Action κ σ β}
    (h : ∀ (w : World κ σ) a, f w.realm = .ok a → ReflTransGen S w.realm (g a w).2.realm) :
    Takes S (read f >>= g) := by
  intro w
  show ReflTransGen S w.realm (bind (read f) g w).2.realm
  unfold bind read
  cases hf : f w.realm with
  | ok a => exact h w a hf
  | error fault => exact .refl

theorem takes_attempt {m : Action κ σ α} (hm : Takes S m) : Takes S m.attempt := by
  intro w
  have h := hm w
  unfold attempt
  split <;> (rename_i heq; rw [heq] at h; exact h)

theorem takes_ite {c : Prop} [Decidable c] {m n : Action κ σ α} (hm : Takes S m)
    (hn : Takes S n) : Takes S (if c then m else n) := by
  split <;> assumption

theorem takes_modifyRealm {f : Realm κ → Realm κ} (h : ∀ r, S r (f r)) :
    Takes S (modifyRealm f : Action κ σ Unit) := fun w => .single (h w.realm)

theorem takes_change {f : Realm κ → α × Realm κ} (h : ∀ r, ReflTransGen S r (f r).2) :
    Takes S (change f : Action κ σ α) := fun w => h w.realm

theorem takes_changeOrFail {f : Realm κ → Except Fault (α × Realm κ)}
    (h : ∀ r a r', f r = .ok (a, r') → S r r') : Takes S (changeOrFail f : Action κ σ α) := by
  intro w
  unfold changeOrFail
  split
  · rename_i a r heq
    exact .single (h w.realm a r heq)
  · exact .refl

theorem takes_changeOnSuccess {f : Realm κ → Except Fault (Realm κ)}
    (h : ∀ r r', f r = .ok r' → S r r') :
    Takes S (changeOrFail fun r => (f r).map fun r => ((), r) : Action κ σ Unit) := by
  refine takes_changeOrFail fun r a r' hr => ?_
  cases hf : f r with
  | ok r'' =>
    rw [hf] at hr
    simp only [Except.map, Except.ok.injEq, Prod.mk.injEq] at hr
    rw [← hr.2]
    exact h r r'' hf
  | error fault => simp [hf, Except.map] at hr

theorem takes_changeAndTry {f : Realm κ → Except Fault α × Realm κ} (h : ∀ r, S r (f r).2) :
    Takes S (changeAndTry f : Action κ σ α) := by
  intro w
  obtain ⟨r, host⟩ := w
  exact (ReflTransGen.single (h r)).trans (takes_ofExcept (f r).1 ⟨(f r).2, host⟩)

end Action

/-! ## Engines that only take steps -/

namespace Engine

open Ecma.Action

/-- Running user code and converting to a text only take steps. -/
structure Takes (S : Realm κ → Realm κ → Prop) (e : Engine κ σ) : Prop where
  apply : ∀ c this args, Action.Takes S (e.apply c this args)
  produce : ∀ c i, Action.Takes S (e.produce c i)
  text : ∀ v, Action.Takes S (e.text v)

variable {allowed : Request κ → Prop} {e : Engine κ σ}

section Calls

variable {S : Realm κ → Realm κ → Prop} (he : e.Takes S)
include he

theorem behave_takes (this : Value) (args : List Value) (b : Behaviour κ) :
    Action.Takes S (e.behave this args b) := by
  cases b with
  | idle => exact takes_pure _
  | code c => exact he.apply c this args

omit he in
theorem behaviourOf_takes (role : Object κ → Option (Callable κ)) (v : Value) :
    Action.Takes S (behaviourOf role v : Action κ σ _) := by
  cases v with
  | object o => exact takes_bind (takes_read _) fun _ => takes_pure _
  | _ => exact takes_pure _

theorem call_takes (f this : Value) (args : List Value) :
    Action.Takes S (e.call f this args) := by
  refine takes_bind (behaviourOf_takes _ _) fun b => ?_
  cases b with
  | none => exact takes_fail _
  | some b => exact behave_takes he this args b

theorem finishLookup_takes (l : Lookup) : Action.Takes S (e.finishLookup l) := by
  cases l with
  | value v => exact takes_pure v
  | getter f receiver => exact call_takes he f receiver []

theorem get_takes (o : ObjectId) (key : Text) (receiver : Value) :
    Action.Takes S (e.get o key receiver) :=
  takes_bind (takes_read _) fun l => finishLookup_takes he l

theorem getBinding_takes (s : ScopeId) (name : String) : Action.Takes S (e.getBinding s name) :=
  takes_bind (takes_read _) fun l => finishLookup_takes he l

/-- The end of an assignment takes a step to the realm with the stored value, or calls the
setter. -/
theorem finishAssignment_takes (v : Value) {w : World κ σ} {a : Assignment κ}
    (ha : ∀ r, a = .stored r → S w.realm r) :
    ReflTransGen S w.realm (e.finishAssignment v a w).2.realm := by
  cases a with
  | stored r => exact .single (ha r rfl)
  | ignored => exact .refl
  | setter f receiver =>
    exact takes_bind (call_takes he f receiver [v]) (fun _ => takes_pure ()) w

theorem instancePrototype_takes (f : Value) : Action.Takes S (e.instancePrototype f) := by
  cases f with
  | object o =>
    refine takes_bind (get_takes he o _ _) fun v => ?_
    cases v <;> exact takes_pure _
  | _ => exact takes_pure _

theorem textOr_takes (default : Text) (v : Value) : Action.Takes S (e.textOr default v) := by
  cases v with
  | undefined => exact takes_pure _
  | _ => exact he.text _

theorem errorText_takes (o : ObjectId) : Action.Takes S (e.errorText o) := by
  refine takes_bind (get_takes he o _ _) fun name => ?_
  refine takes_bind (textOr_takes he _ name) fun _ => ?_
  refine takes_bind (get_takes he o _ _) fun message => ?_
  exact takes_bind (textOr_takes he _ message) fun _ => takes_pure _

theorem elementTexts_takes (o : ObjectId) (count : Nat) : ∀ (texts : List Text) (i : Nat),
    Action.Takes S (e.elementTexts o texts i count) := by
  induction count with
  | zero => exact fun texts i => takes_pure _
  | succ count ih =>
    intro texts i
    refine takes_bind (get_takes he o _ _) fun v => ?_
    refine takes_bind (takes_ite (takes_pure _) (he.text v)) fun t => ?_
    exact ih (t :: texts) (i + 1)

theorem join_takes (o : ObjectId) : Action.Takes S (e.join o) := by
  refine takes_bind (get_takes he o _ _) fun length => ?_
  exact takes_bind (elementTexts_takes he o _ [] 0) fun _ => takes_pure _

theorem methodPrimitive_takes (o : ObjectId) (names : List String) : ∀ found : Bool,
    Action.Takes S (e.methodPrimitive o found names) := by
  induction names with
  | nil => exact fun found => takes_ite (takes_fail _) (takes_pure _)
  | cons name names ih =>
    intro found
    refine takes_bind (get_takes he o _ _) fun method => takes_bind takes_realm fun r => ?_
    refine takes_ite (takes_bind (call_takes he _ _ _) fun v => ?_) (ih found)
    exact takes_ite (ih true) (takes_pure _)

end Calls

section Conversions

variable {S : Realm κ → Realm κ → Prop} (he : e.Takes S) (hb : Realm.Bookkeeping S)
include he hb

theorem step_takes (p : ProducerId) : Action.Takes S (e.step p) := by
  refine takes_bind takes_realm fun r => ?_
  cases r.producers[p.index]? with
  | none => exact takes_fail _
  | some producer =>
    refine takes_ite (takes_fail _) ?_
    refine takes_bind (takes_modifyRealm fun r => hb.startProducer r p) fun _ => ?_
    refine takes_bind (takes_attempt (he.produce _ _)) fun result => ?_
    exact takes_bind (takes_modifyRealm fun r => hb.stopProducer r p) fun _ => takes_ofExcept _

theorem iteratorNext_takes (o : ObjectId) : Action.Takes S (e.iteratorNext o) := by
  refine takes_bind (takes_read _) fun data => takes_ite (takes_pure _) ?_
  cases data.producer with
  | none => exact takes_fail _
  | some p =>
    refine takes_bind (step_takes he hb p) fun item => ?_
    show Action.Takes _ (if item.isNone then _ else _)
    refine takes_ite (takes_bind (takes_modifyRealm fun r => ?_) fun _ => takes_pure _)
      (takes_pure _)
    exact hb.exhaust r o p

theorem arrayText_takes (o : ObjectId) : Action.Takes S (e.arrayText o) := by
  refine takes_bind takes_realm fun r => takes_ite (takes_pure _) ?_
  refine takes_bind (takes_modifyRealm fun r => hb.enterJoin r o) fun _ => ?_
  refine takes_bind (takes_attempt (join_takes he o)) fun result => ?_
  exact takes_bind (takes_modifyRealm hb.leaveJoin) fun _ => takes_ofExcept _

theorem defaultText_takes (o : ObjectId) : Action.Takes S (e.defaultText o) := by
  refine takes_bind (takes_read _) fun data => takes_ite (errorText_takes he o) ?_
  refine takes_ite (arrayText_takes he hb o) ?_
  cases data.callable <;> exact takes_pure _

theorem toPrimitive_takes (hint : Hint) (v : Value) : Action.Takes S (e.toPrimitive hint v) := by
  cases v with
  | object o =>
    refine takes_bind (methodPrimitive_takes he o _ false) fun p => ?_
    cases p with
    | none => exact takes_bind (defaultText_takes he hb o) fun _ => takes_pure _
    | some p => exact takes_pure p
  | _ => exact takes_pure _

theorem toText_takes (v : Value) : Action.Takes S (e.toText v) :=
  takes_bind (toPrimitive_takes he hb _ v) fun _ => takes_ofExcept _

theorem toNumber_takes (v : Value) : Action.Takes S (e.toNumber v) :=
  takes_bind (toPrimitive_takes he hb _ v) fun _ => takes_ofExcept _

theorem toPropertyKey_takes (v : Value) : Action.Takes S (e.toPropertyKey v) :=
  takes_bind (toPrimitive_takes he hb _ v) fun _ => takes_ofExcept _

theorem comparand_takes (v other : Value) : Action.Takes S (e.comparand v other) :=
  takes_ite (toPrimitive_takes he hb _ v) (takes_pure _)

theorem looselyEqual_takes (a b : Value) : Action.Takes S (e.looselyEqual a b) := by
  refine takes_bind (comparand_takes he hb a b) fun _ => ?_
  exact takes_bind (comparand_takes he hb b a) fun _ => takes_pure _

end Conversions

section Requests

variable (he : e.Takes (Realm.Step allowed))
include he

theorem set_takes (o : ObjectId) (key : Text) (v : Value) :
    Action.Takes (Realm.Step allowed) (e.set o key v) := by
  refine takes_read_bind fun w a ha => finishAssignment_takes he v fun r hr => ?_
  subst hr
  exact .assign ha

theorem setBinding_takes (s : ScopeId) (name : String) (v : Value) :
    Action.Takes (Realm.Step allowed) (e.setBinding s name v) := by
  refine takes_read_bind fun w a ha => finishAssignment_takes he v fun r hr => ?_
  subst hr
  exact .assignName ha

theorem construct_takes (f : Value) (args : List Value) :
    Action.Takes (Realm.Step allowed) (e.construct f args) := by
  refine takes_bind (behaviourOf_takes _ _) fun b => ?_
  cases b with
  | none => exact takes_fail _
  | some b =>
    refine takes_bind (instancePrototype_takes he f) fun proto => ?_
    refine takes_bind (takes_change fun r => .single (.create r _ _)) fun o => ?_
    exact takes_bind (behave_takes he _ _ _) fun v => takes_pure _

/-- A request takes a realm through steps only. -/
theorem perform_takes {req : Request κ} (ha : allowed req) :
    Action.Takes (Realm.Step allowed) (e.perform req) := by
  have hb := Realm.bookkeeping_step allowed
  cases req with
  | create kind prototype => exact takes_change fun r => .single (.create r kind prototype)
  | createArray elements => exact takes_change fun r => .single (.createArray ha)
  | createFunction f => exact takes_change fun r => .single (.createFunction ha)
  | createConstructor call construct => exact takes_change fun r => .single (.createConstructor ha)
  | createError kind message => exact takes_change fun r => .single (.createError r kind message)
  | createIterator code => exact takes_change fun r => .single (.createIterator ha)
  | createSymbol description => exact takes_change fun r => .single (.createSymbol ha)
  | errorValue f =>
    refine takes_change fun r => ?_
    unfold Realm.errorValue
    split
    · exact .refl
    · split
      · exact .single (.createError r _ _)
      · exact .refl
  | get o key receiver => exact get_takes he o key receiver
  | set o key v => exact set_takes he o key v
  | define o key d => exact takes_changeOnSuccess fun r r' h => .define ha h
  | delete o key => exact takes_changeOrFail fun r b r' h => .delete ha h
  | setPrototype o proto => exact takes_changeOrFail fun r b r' h => .setPrototype ha h
  | preventExtensions o => exact takes_changeOnSuccess fun r r' h => .preventExtensions ha h
  | writeHidden o key v => exact takes_modifyRealm fun r => .writeHidden ha
  | writePrototype o proto => exact takes_modifyRealm fun r => .writePrototype ha
  | writeSlot o name v => exact takes_modifyRealm fun r => .writeSlot ha
  | writeElements o elements => exact takes_modifyRealm fun r => .writeElements ha
  | call f this args => exact call_takes he f this args
  | construct f args => exact construct_takes he f args
  | iteratorNext o => exact iteratorNext_takes he hb o
  | toText v => exact toText_takes he hb v
  | toNumber v => exact toNumber_takes he hb v
  | toPropertyKey v => exact toPropertyKey_takes he hb v
  | toPrimitive v hint => exact toPrimitive_takes he hb hint v
  | looselyEqual a b => exact looselyEqual_takes he hb a b
  | addScope kind parent => exact takes_change fun r => .single (.addScope ha)
  | createUninitialized s name kind => exact takes_modifyRealm fun r => .createUninitialized ha
  | declare s name kind v => exact takes_changeAndTry fun r => .declare ha
  | getBinding s name => exact getBinding_takes he s name
  | setBinding s name v => exact setBinding_takes he s name v
  | setInScope s name v => exact takes_changeAndTry fun r => .setInScope ha
  | declareVar s name v deletable => exact takes_changeAndTry fun r => .declareVar ha
  | hoistFunction s name v => exact takes_changeAndTry fun r => .hoistFunction ha
  | link s o => exact takes_modifyRealm fun r => .link ha
  | defineBuiltin name v => exact takes_modifyRealm fun r => .defineBuiltin ha
  | collect scopes values => exact takes_change fun r => .single (.collect r scopes values)
  | collectIfDue scopes values =>
    refine takes_change fun r => ?_
    unfold Realm.collectIfDue
    split
    · exact .single (.collect r scopes values)
    · exact .refl

end Requests

end Engine

/-! ## Programs and libraries -/

/-- A program whose requests only take steps takes only steps. -/
theorem Program.run_takes {allowed : Request κ → Prop} {S : Realm κ → Realm κ → Prop}
    {perform : (r : Request κ) → Action κ σ r.Reply}
    (hp : ∀ r, allowed r → Action.Takes S (perform r)) {p : Program κ σ α}
    (h : p.AsksOnly allowed) : Action.Takes S (p.run perform) := by
  induction p with
  | pure a => exact Action.takes_pure a
  | fail f => exact Action.takes_fail f
  | look k ih => exact fun w => ih w (h w) w
  | store host next ih => exact fun w => ih h { w with host := host }
  | ask r k ih =>
    exact Action.takes_bind (Action.takes_attempt (hp r h.1)) fun reply => ih reply (h.2 reply)

namespace Library

variable {allowed : Request κ → Prop} {lib : Library κ σ}

/-- At every depth, the engine of a library only takes steps. -/
theorem engine_takes (h : lib.AsksOnly allowed) (depth : Nat) :
    (lib.engine depth).Takes (Realm.Step allowed) := by
  induction depth with
  | zero =>
    exact ⟨fun _ _ _ => Action.takes_diverge, fun _ _ => Action.takes_diverge,
      fun _ => Action.takes_diverge⟩
  | succ depth ih =>
    have hp : ∀ r, allowed r → Action.Takes (Realm.Step allowed) ((lib.engine depth).perform r) :=
      fun r hr => Engine.perform_takes ih hr
    exact ⟨fun c this args => Program.run_takes hp (h.apply c this args),
      fun c i => Program.run_takes hp (h.produce c i),
      fun v => Engine.toText_takes ih (Realm.bookkeeping_step allowed) v⟩

end Library

/-! ## Realms that can be met -/

namespace Realm

/-- The realms that can be met when only allowed requests are made: the fresh one, those that a
request leaves behind, and those in the middle of a request. -/
inductive Reached (allowed : Request κ → Prop) (options : Options) : Realm κ → Prop where
  | fresh : Reached allowed options (.fresh options)
  | request {σ : Type} {lib : Library κ σ} (hl : lib.AsksOnly allowed) (depth : Nat)
      {req : Request κ} (ha : allowed req) {w : World κ σ} (h : Reached allowed options w.realm) :
      Reached allowed options ((lib.engine depth).perform req w).2.realm
  | step {r r' : Realm κ} (h : Reached allowed options r) (hs : Step allowed r r') :
      Reached allowed options r'

variable {allowed : Request κ → Prop} {options : Options}

/-- All realms that can be met are reached by steps. -/
theorem Reached.steps {r : Realm κ} (h : Reached allowed options r) :
    ReflTransGen (Step allowed) (.fresh options) r := by
  induction h with
  | fresh => exact .refl
  | request hl depth ha h ih =>
    exact ih.trans (Engine.perform_takes (Library.engine_takes hl depth) ha _)
  | step h hs ih => exact ih.tail hs

/-- What holds of the fresh realm and is kept by every step holds of every realm that can be met. -/
theorem Reached.induction {P : Realm κ → Prop} (hfresh : P (.fresh options))
    (hstep : ∀ r r', P r → Step allowed r r' → P r') {r : Realm κ}
    (h : Reached allowed options r) : P r := by
  have hsteps := h.steps
  clear h
  induction hsteps with
  | refl => exact hfresh
  | tail _ hs ih => exact hstep _ _ ih hs

end Realm

end Ecma
