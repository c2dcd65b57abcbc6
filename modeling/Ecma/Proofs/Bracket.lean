import Ecma.Proofs.Ancestry
import Ecma.Proofs.Quiet

/-!
# Brackets around user code

Two things are noted down while user code runs and have to be taken back whatever it does: an array
counts as being joined while its elements are converted, and a producer as running until it is done.
`Action.Alike` says of two actions that they do the same wherever an invariant holds, and that, if
they end at all, the invariant holds again and the arrays being joined are those of before. It
passes from the engine to every operation over it (`Engine.perform_alike`) and to programs
(`Program.run_alike`). With the trivial invariant it says that joins are always left again
(`Realm.joins_left`).
-/

namespace Ecma

variable {κ σ α β : Type}

deriving instance DecidableEq for Outcome

namespace Realm

/-- The producer is there and not running. -/
def IsIdle (r : Realm κ) (q : ProducerId) : Prop :=
  ∃ producer, r.producers[q.index]? = some producer ∧ producer.running = false

/-- An invariant that survives what requests do. A producer may count on having been idle at a time
when the invariant held, when it is stopped and when its iterator is marked. -/
structure Lasting (allowed : Request κ → Prop) (I : Realm κ → Prop) : Prop where
  calm : ∀ {r r'}, I r → Calm allowed r r' → I r'
  join : ∀ {r} js, I r → I { r with joining := js }
  start : ∀ {r} q, I r → I (r.startProducer q)
  stop : ∀ {r r' q}, I r → r.IsIdle q → I r' → I (r'.stopProducer q)
  exhaust : ∀ {r r' q} o, I r → r.IsIdle q → I r' → I (Engine.exhaust o q r')

theorem lasting_true (allowed : Request κ → Prop) : Lasting allowed fun _ => True :=
  ⟨fun _ _ => trivial, fun _ _ => trivial, fun _ _ => trivial, fun _ _ _ => trivial,
    fun _ _ _ _ => trivial⟩

theorem Calm.joining {allowed : Request κ → Prop} {r r' : Realm κ} (h : Calm allowed r r') :
    r'.joining = r.joining := by
  cases h with
  | quiet h => exact h.joining
  | createIterator code => rfl
  | mark ha => rfl

end Realm

/-! ## Actions -/

namespace Action

/-- The run holds the invariant again and has left all joins it entered. -/
def Leaves (I : Realm κ → Prop) (w : World κ σ) (result : Outcome α × World κ σ) : Prop :=
  result.1 ≠ .diverged → I result.2.realm ∧ result.2.realm.joining = w.realm.joining

/-- Where the invariant holds, the two actions do the same and leave it in place. -/
def Alike (I : Realm κ → Prop) (m m' : Action κ σ α) : Prop :=
  ∀ w, I w.realm → m' w = m w ∧ Leaves I w (m w)

variable {I : Realm κ → Prop}

theorem leaves_self {w : World κ σ} (h : I w.realm) (outcome : Outcome α) :
    Leaves I w (outcome, w) := fun _ => ⟨h, rfl⟩

theorem alike_of_still {m : Action κ σ α} (h : ∀ w, (m w).2 = w) : Alike I m m := by
  refine fun w hw => ⟨rfl, fun _ => ?_⟩
  rw [h w]
  exact ⟨hw, rfl⟩

theorem alike_pure (a : α) : Alike I (Pure.pure a : Action κ σ α) (Pure.pure a) :=
  alike_of_still fun _ => rfl

theorem alike_fail (f : Fault) : Alike I (fail f : Action κ σ α) (fail f) :=
  alike_of_still fun _ => rfl

theorem alike_diverge : Alike I (diverge : Action κ σ α) diverge := alike_of_still fun _ => rfl

theorem alike_realm : Alike I (realm : Action κ σ (Realm κ)) realm := alike_of_still fun _ => rfl

theorem alike_ofExcept (x : Except Fault α) :
    Alike I (ofExcept x : Action κ σ α) (ofExcept x) := by
  cases x with
  | ok a => exact alike_pure a
  | error f => exact alike_fail f

theorem alike_read (f : Realm κ → Except Fault α) : Alike I (read f : Action κ σ α) (read f) :=
  fun w hw => alike_ofExcept (f w.realm) w hw

theorem realm_bind (g : Realm κ → Action κ σ β) (w : World κ σ) :
    (realm >>= g) w = g w.realm w := rfl

theorem read_bind {f : Realm κ → Except Fault α} {g : α → Action κ σ β} {w : World κ σ} {a : α}
    (h : f w.realm = .ok a) : (read f >>= g) w = g a w := by
  show bind (read f) g w = g a w
  unfold bind read
  rw [h]
  rfl

/-- What follows an action may count on all that is known where the action ends. -/
theorem alike_bind_at {m m' : Action κ σ α} {f f' : α → Action κ σ β} {w : World κ σ}
    (hm : m' w = m w ∧ Leaves I w (m w))
    (hf : ∀ a w', m w = (.done a, w') → I w'.realm →
      f' a w' = f a w' ∧ Leaves I w' (f a w')) :
    (m' >>= f') w = (m >>= f) w ∧ Leaves I w ((m >>= f) w) := by
  obtain ⟨heq, hleaves⟩ := hm
  show bind m' f' w = bind m f w ∧ Leaves I w (bind m f w)
  unfold bind
  rw [heq]
  rcases hrun : m w with ⟨outcome, w'⟩
  rw [hrun] at hleaves
  cases outcome with
  | done a =>
    obtain ⟨hI, hj⟩ := hleaves nofun
    obtain ⟨hsame, hrest⟩ := hf a w' hrun hI
    exact ⟨hsame, fun hne => ⟨(hrest hne).1, (hrest hne).2.trans hj⟩⟩
  | failed fault => exact ⟨rfl, fun _ => hleaves nofun⟩
  | diverged => exact ⟨rfl, fun hne => absurd rfl hne⟩

theorem alike_bind {m m' : Action κ σ α} {f f' : α → Action κ σ β} (hm : Alike I m m')
    (hf : ∀ a, Alike I (f a) (f' a)) : Alike I (m >>= f) (m' >>= f') :=
  fun w hw => alike_bind_at (hm w hw) fun a w' _ hw' => hf a w' hw'

theorem alike_attempt {m m' : Action κ σ α} (hm : Alike I m m') :
    Alike I m.attempt m'.attempt := by
  intro w hw
  obtain ⟨heq, hleaves⟩ := hm w hw
  unfold attempt
  rw [heq]
  rcases hrun : m w with ⟨outcome, w'⟩
  rw [hrun] at hleaves
  cases outcome with
  | done a => exact ⟨rfl, fun _ => hleaves nofun⟩
  | failed fault => exact ⟨rfl, fun _ => hleaves nofun⟩
  | diverged => exact ⟨rfl, fun hne => absurd rfl hne⟩

/-- An attempt has a result even if the action fails. -/
theorem attempt_ne_failed (m : Action κ σ α) (w : World κ σ) (f : Fault) (w' : World κ σ) :
    m.attempt w ≠ (.failed f, w') := by
  unfold attempt
  split <;> exact nofun

/-- An action between two changes of the realm, of which the second is made however the action
ends. In between another invariant may hold. -/
theorem alike_bracket {J : Realm κ → Prop} {m m' : Action κ σ α}
    {opening closing : Realm κ → Realm κ} {w : World κ σ} (hm : Alike J m m')
    (hopen : J (opening w.realm))
    (hclose : ∀ r, J r → r.joining = (opening w.realm).joining →
      I (closing r) ∧ (closing r).joining = w.realm.joining) :
    let bracket (m : Action κ σ α) : Action κ σ α := do
      modifyRealm opening
      let result ← m.attempt
      modifyRealm closing
      ofExcept result
    bracket m' w = bracket m w ∧ Leaves I w (bracket m w) := by
  obtain ⟨heq, hleaves⟩ := alike_attempt hm ⟨opening w.realm, w.host⟩ hopen
  dsimp only
  show bind m'.attempt _ ⟨opening w.realm, w.host⟩ = bind m.attempt _ ⟨opening w.realm, w.host⟩ ∧
    Leaves I w (bind m.attempt _ ⟨opening w.realm, w.host⟩)
  unfold bind
  rw [heq]
  rcases hrun : m.attempt ⟨opening w.realm, w.host⟩ with ⟨outcome, w'⟩
  rw [hrun] at hleaves
  cases outcome with
  | done result =>
    obtain ⟨hJ, hj⟩ := hleaves nofun
    have hclosed := hclose w'.realm hJ hj
    cases result with
    | ok a => exact ⟨rfl, fun _ => hclosed⟩
    | error f => exact ⟨rfl, fun _ => hclosed⟩
  | failed fault => exact absurd hrun (attempt_ne_failed m _ fault w')
  | diverged => exact ⟨rfl, fun hne => absurd rfl hne⟩

theorem alike_ite {c : Prop} [Decidable c] {m m' n n' : Action κ σ α} (hm : Alike I m m')
    (hn : Alike I n n') : Alike I (if c then m else n) (if c then m' else n') := by
  split <;> assumption

section Changes

variable {allowed : Request κ → Prop} (hI : Realm.Lasting allowed I)
include hI

theorem leaves_of_calm {w : World κ σ} {r' : Realm κ} (hw : I w.realm)
    (h : Realm.Calm allowed w.realm r') (outcome : Outcome α) (host : σ) :
    Leaves I w (outcome, ⟨r', host⟩) := fun _ => ⟨hI.calm hw h, h.joining⟩

theorem alike_modifyRealm {f : Realm κ → Realm κ} (h : ∀ r, Realm.Calm allowed r (f r)) :
    Alike I (modifyRealm f : Action κ σ Unit) (modifyRealm f) :=
  fun w hw => ⟨rfl, leaves_of_calm hI hw (h w.realm) _ _⟩

theorem alike_change {f : Realm κ → α × Realm κ} (h : ∀ r, Realm.Calm allowed r (f r).2) :
    Alike I (change f : Action κ σ α) (change f) :=
  fun w hw => ⟨rfl, leaves_of_calm hI hw (h w.realm) _ _⟩

theorem alike_changeOrFail {f : Realm κ → Except Fault (α × Realm κ)}
    (h : ∀ {r a r'}, f r = .ok (a, r') → Realm.Calm allowed r r') :
    Alike I (changeOrFail f : Action κ σ α) (changeOrFail f) := by
  refine fun w hw => ⟨rfl, ?_⟩
  unfold changeOrFail
  split
  · rename_i a r heq
    exact leaves_of_calm hI hw (h heq) _ _
  · exact leaves_self hw _

theorem alike_changeOnSuccess {f : Realm κ → Except Fault (Realm κ)}
    (h : ∀ {r r'}, f r = .ok r' → Realm.Calm allowed r r') :
    Alike I (changeOrFail fun r => (f r).map fun r => ((), r) : Action κ σ Unit)
      (changeOrFail fun r => (f r).map fun r => ((), r)) := by
  refine alike_changeOrFail hI fun hr => ?_
  obtain ⟨r'', hf, hpair⟩ := Except.map_eq_ok hr
  obtain ⟨-, rfl⟩ := Prod.mk.inj hpair
  exact h hf

theorem alike_changeAndTry {f : Realm κ → Except Fault α × Realm κ}
    (h : ∀ r, Realm.Calm allowed r (f r).2) :
    Alike I (changeAndTry f : Action κ σ α) (changeAndTry f) := by
  refine fun w hw => ⟨rfl, ?_⟩
  unfold changeAndTry
  dsimp only
  cases (f w.realm).1 with
  | ok a => exact leaves_of_calm hI hw (h w.realm) _ _
  | error fault => exact leaves_of_calm hI hw (h w.realm) _ _

end Changes

end Action

/-! ## Engines -/

namespace Engine

open Ecma.Action

/-- Two engines whose user code and conversions to texts are alike. -/
structure Alike (I : Realm κ → Prop) (e e' : Engine κ σ) : Prop where
  apply : ∀ c this args, Action.Alike I (e.apply c this args) (e'.apply c this args)
  produce : ∀ c i, Action.Alike I (e.produce c i) (e'.produce c i)
  text : ∀ v, Action.Alike I (e.text v) (e'.text v)

variable {I : Realm κ → Prop} {e e' : Engine κ σ}

section Calls

variable (he : e.Alike I e')
include he

theorem behave_alike (this : Value) (args : List Value) (b : Behaviour κ) :
    Action.Alike I (e.behave this args b) (e'.behave this args b) := by
  cases b with
  | idle => exact alike_pure _
  | code c => exact he.apply c this args

omit he in
theorem behaviourOf_alike (role : Object κ → Option (Callable κ)) (v : Value) :
    Action.Alike I (behaviourOf role v : Action κ σ _) (behaviourOf role v) := by
  cases v with
  | object o => exact alike_bind (alike_read _) fun _ => alike_pure _
  | _ => exact alike_pure _

theorem call_alike (f this : Value) (args : List Value) :
    Action.Alike I (e.call f this args) (e'.call f this args) := by
  refine alike_bind (behaviourOf_alike _ _) fun b => ?_
  cases b with
  | none => exact alike_fail _
  | some b => exact behave_alike he this args b

theorem finishLookup_alike (l : Lookup) :
    Action.Alike I (e.finishLookup l) (e'.finishLookup l) := by
  cases l with
  | value v => exact alike_pure v
  | getter f receiver => exact call_alike he f receiver []

theorem get_alike (o : ObjectId) (key : Text) (receiver : Value) :
    Action.Alike I (e.get o key receiver) (e'.get o key receiver) :=
  alike_bind (alike_read _) fun l => finishLookup_alike he l

theorem getBinding_alike (s : ScopeId) (name : String) :
    Action.Alike I (e.getBinding s name) (e'.getBinding s name) :=
  alike_bind (alike_read _) fun l => finishLookup_alike he l

theorem instancePrototype_alike (f : Value) :
    Action.Alike I (e.instancePrototype f) (e'.instancePrototype f) := by
  cases f with
  | object o =>
    refine alike_bind (get_alike he o _ _) fun v => ?_
    cases v <;> exact alike_pure _
  | _ => exact alike_pure _

theorem textOr_alike (default : Text) (v : Value) :
    Action.Alike I (e.textOr default v) (e'.textOr default v) := by
  cases v with
  | undefined => exact alike_pure _
  | _ => exact he.text _

theorem errorText_alike (o : ObjectId) :
    Action.Alike I (e.errorText o) (e'.errorText o) := by
  refine alike_bind (get_alike he o _ _) fun name => ?_
  refine alike_bind (textOr_alike he _ name) fun _ => ?_
  refine alike_bind (get_alike he o _ _) fun message => ?_
  exact alike_bind (textOr_alike he _ message) fun _ => alike_pure _

theorem elementTexts_alike (o : ObjectId) (count : Nat) : ∀ (texts : List Text) (i : Nat),
    Action.Alike I (e.elementTexts o texts i count) (e'.elementTexts o texts i count) := by
  induction count with
  | zero => exact fun texts i => alike_pure _
  | succ count ih =>
    intro texts i
    refine alike_bind (get_alike he o _ _) fun v => ?_
    refine alike_bind (alike_ite (alike_pure _) (he.text v)) fun t => ?_
    exact ih (t :: texts) (i + 1)

theorem join_alike (o : ObjectId) : Action.Alike I (e.join o) (e'.join o) := by
  refine alike_bind (get_alike he o _ _) fun length => ?_
  exact alike_bind (elementTexts_alike he o _ [] 0) fun _ => alike_pure _

theorem methodPrimitive_alike (o : ObjectId) (names : List String) : ∀ found : Bool,
    Action.Alike I (e.methodPrimitive o found names) (e'.methodPrimitive o found names) := by
  induction names with
  | nil => exact fun found => alike_ite (alike_fail _) (alike_pure _)
  | cons name names ih =>
    intro found
    refine alike_bind (get_alike he o _ _) fun method => alike_bind alike_realm fun r => ?_
    refine alike_ite (alike_bind (call_alike he _ _ _) fun v => ?_) (ih found)
    exact alike_ite (ih true) (alike_pure _)

end Calls

section Brackets

variable {allowed : Request κ → Prop} (hI : Realm.Lasting allowed I) (he : e.Alike I e')
include hI he

/-- The array is taken off again however the joining of its elements ends. -/
theorem arrayText_alike (o : ObjectId) : Action.Alike I (e.arrayText o) (e'.arrayText o) := by
  refine alike_bind alike_realm fun r => alike_ite (alike_pure _) fun w hw => ?_
  refine alike_bracket (join_alike he o) (hI.join (o :: w.realm.joining) hw) fun r' hr' hj => ?_
  refine ⟨hI.join _ hr', ?_⟩
  show r'.joining.tail = w.realm.joining
  rw [hj]
  rfl

omit hI he in
/-- A producer that gives an item was idle before. -/
theorem isIdle_of_step {q : ProducerId} {w w' : World κ σ} {item : Option Value}
    (h : e.step q w = (.done item, w')) : w.realm.IsIdle q := by
  rw [step, realm_bind] at h
  cases hq : w.realm.producers[q.index]? with
  | none =>
    rw [hq] at h
    cases h
  | some producer =>
    rw [hq] at h
    dsimp only at h
    split at h
    · cases h
    · rename_i hidle
      exact ⟨producer, hq, Bool.eq_false_iff.2 hidle⟩

theorem step_alike (q : ProducerId) : Action.Alike I (e.step q) (e'.step q) := by
  intro w hw
  rw [step, step, realm_bind, realm_bind]
  cases hq : w.realm.producers[q.index]? with
  | none => exact alike_fail _ w hw
  | some producer =>
    dsimp only
    split
    · exact alike_fail _ w hw
    · rename_i hidle
      have hidle : w.realm.IsIdle q := ⟨producer, hq, Bool.eq_false_iff.2 hidle⟩
      exact alike_bracket (he.produce _ _) (hI.start q hw) fun r' hr' hj =>
        ⟨hI.stop hw hidle hr', hj⟩

theorem iteratorNext_alike (o : ObjectId) :
    Action.Alike I (e.iteratorNext o) (e'.iteratorNext o) := by
  refine alike_bind (alike_read _) fun data => alike_ite (alike_pure _) ?_
  cases data.producer with
  | none => exact alike_fail _
  | some q =>
    refine fun w hw => alike_bind_at (step_alike hI he q w hw) fun item w' hstep hw' => ?_
    have hidle : w.realm.IsIdle q := isIdle_of_step hstep
    cases item with
    | none => exact ⟨rfl, fun _ => ⟨hI.exhaust o hw hidle hw', rfl⟩⟩
    | some v => exact ⟨rfl, leaves_self hw' _⟩

theorem defaultText_alike (o : ObjectId) :
    Action.Alike I (e.defaultText o) (e'.defaultText o) := by
  refine alike_bind (alike_read _) fun data => alike_ite (errorText_alike he o) ?_
  refine alike_ite (arrayText_alike hI he o) ?_
  cases data.callable <;> exact alike_pure _

theorem toPrimitive_alike (hint : Hint) (v : Value) :
    Action.Alike I (e.toPrimitive hint v) (e'.toPrimitive hint v) := by
  cases v with
  | object o =>
    refine alike_bind (methodPrimitive_alike he o _ false) fun p => ?_
    cases p with
    | none => exact alike_bind (defaultText_alike hI he o) fun _ => alike_pure _
    | some p => exact alike_pure p
  | _ => exact alike_pure _

theorem toText_alike (v : Value) : Action.Alike I (e.toText v) (e'.toText v) :=
  alike_bind (toPrimitive_alike hI he _ v) fun _ => alike_ofExcept _

theorem toNumber_alike (v : Value) : Action.Alike I (e.toNumber v) (e'.toNumber v) :=
  alike_bind (toPrimitive_alike hI he _ v) fun _ => alike_ofExcept _

theorem toPropertyKey_alike (v : Value) :
    Action.Alike I (e.toPropertyKey v) (e'.toPropertyKey v) :=
  alike_bind (toPrimitive_alike hI he _ v) fun _ => alike_ofExcept _

theorem comparand_alike (v other : Value) :
    Action.Alike I (e.comparand v other) (e'.comparand v other) :=
  alike_ite (toPrimitive_alike hI he _ v) (alike_pure _)

theorem looselyEqual_alike (a b : Value) :
    Action.Alike I (e.looselyEqual a b) (e'.looselyEqual a b) := by
  refine alike_bind (comparand_alike hI he a b) fun _ => ?_
  exact alike_bind (comparand_alike hI he b a) fun _ => alike_pure _

end Brackets

section Requests

variable {allowed : Request κ → Prop} (hI : Realm.Lasting allowed I) (he : e.Alike I e')
include hI he

/-- An assignment stores quietly or calls the setter. -/
theorem assignment_alike (v : Value) {f : Realm κ → Except Fault (Assignment κ)}
    (hf : ∀ {r r'}, f r = .ok (.stored r') → r.Quiet r') :
    Action.Alike I (Action.read f >>= e.finishAssignment v)
      (Action.read f >>= e'.finishAssignment v) := by
  refine fun w hw => alike_bind_at (alike_read f w hw) fun a w' hread hw' => ?_
  obtain ⟨ha, rfl⟩ := read_eq_done hread
  cases a with
  | stored r => exact ⟨rfl, leaves_of_calm hI hw (.quiet (hf ha)) _ _⟩
  | ignored => exact ⟨rfl, leaves_self hw _⟩
  | setter g receiver =>
    exact alike_bind (call_alike he g receiver [v]) (fun _ => alike_pure ()) _ hw

theorem construct_alike (f : Value) (args : List Value) :
    Action.Alike I (e.construct f args) (e'.construct f args) := by
  refine alike_bind (behaviourOf_alike _ _) fun b => ?_
  cases b with
  | none => exact alike_fail _
  | some b =>
    refine alike_bind (instancePrototype_alike he f) fun proto => ?_
    refine alike_bind (alike_change hI fun r => .quiet (.allocate r rfl)) fun o => ?_
    exact alike_bind (behave_alike he _ _ _) fun v => alike_pure _

/-- Over engines that are alike, every request is answered alike. -/
theorem perform_alike {req : Request κ} (ha : allowed req) :
    Action.Alike I (e.perform req) (e'.perform req) := by
  cases req with
  | create kind prototype => exact alike_change hI fun r => .quiet (.allocate r rfl)
  | createArray elements => exact alike_change hI fun r => .quiet (.allocate r rfl)
  | createFunction f => exact alike_change hI fun r => .quiet (.allocate r rfl)
  | createConstructor call construct =>
    exact alike_change hI fun r => .quiet (.createConstructor r call construct)
  | createError kind message => exact alike_change hI fun r => .quiet (.allocate r rfl)
  | createIterator code => exact alike_change hI fun r => .createIterator code
  | createSymbol description => exact alike_change hI fun r => .quiet (.createSymbol r description)
  | errorValue f => exact alike_change hI fun r => .quiet (.errorValue r f)
  | get o key receiver => exact get_alike he o key receiver
  | set o key v => exact assignment_alike hI he v .assign
  | define o key d => exact alike_changeOnSuccess hI fun h => .quiet (.define h)
  | delete o key => exact alike_changeOrFail hI fun h => .quiet (.delete h)
  | setPrototype o proto => exact alike_changeOrFail hI fun h => .quiet (.setPrototype h)
  | preventExtensions o => exact alike_changeOnSuccess hI fun h => .quiet (.preventExtensions h)
  | writeHidden o key v =>
    refine alike_modifyRealm hI fun r => .quiet (.modifyObject fun _ _ => ?_)
    rfl
  | writePrototype o proto =>
    refine alike_modifyRealm hI fun r => .quiet (.modifyObject fun _ _ => ?_)
    rfl
  | writeSlot o name v => exact alike_modifyRealm hI fun r => .writeSlot ha
  | writeElements o elements =>
    refine alike_modifyRealm hI fun r => .quiet (.modifyObject fun _ _ => ?_)
    rfl
  | call f this args => exact call_alike he f this args
  | construct f args => exact construct_alike hI he f args
  | iteratorNext o => exact iteratorNext_alike hI he o
  | toText v => exact toText_alike hI he v
  | toNumber v => exact toNumber_alike hI he v
  | toPropertyKey v => exact toPropertyKey_alike hI he v
  | toPrimitive v hint => exact toPrimitive_alike hI he hint v
  | looselyEqual a b => exact looselyEqual_alike hI he a b
  | addScope kind parent => exact alike_change hI fun r => .quiet (.addScope r kind parent)
  | createUninitialized s name kind =>
    exact alike_modifyRealm hI fun r => .quiet (.modifyScope r _ _)
  | declare s name kind v =>
    exact alike_changeAndTry hI fun r => .quiet (.settles (r.settles_declare s name kind v))
  | getBinding s name => exact getBinding_alike he s name
  | setBinding s name v => exact assignment_alike hI he v .assignName
  | setInScope s name v =>
    exact alike_changeAndTry hI fun r => .quiet (.settles (r.settles_setInScope s name v))
  | declareVar s name v deletable =>
    exact alike_changeAndTry hI fun r =>
      .quiet (.settles (r.settles_declareVar s name v deletable))
  | hoistFunction s name v =>
    exact alike_changeAndTry hI fun r => .quiet (.settles (r.settles_hoistFunction s name v))
  | link s o => exact alike_modifyRealm hI fun r => .quiet (.link r s o)
  | defineBuiltin name v => exact alike_modifyRealm hI fun r => .quiet (.defineBuiltin r name v)
  | collect scopes values => exact alike_change hI fun r => .quiet (.collect r scopes values)
  | collectIfDue scopes values =>
    exact alike_change hI fun r => .quiet (.collectIfDue r scopes values)

end Requests

end Engine

/-- A program does the same whether its requests are answered in one or the other of two ways that
are alike. -/
theorem Program.run_alike {allowed : Request κ → Prop} {I : Realm κ → Prop}
    {perform perform' : (r : Request κ) → Action κ σ r.Reply}
    (hp : ∀ r, allowed r → Action.Alike I (perform r) (perform' r)) {p : Program κ σ α}
    (h : p.AsksOnly allowed) : Action.Alike I (p.run perform) (p.run perform') := by
  induction p with
  | pure a => exact Action.alike_pure a
  | fail f => exact Action.alike_fail f
  | look k ih => exact fun w => ih w (h w) w
  | store host next ih => exact fun w => ih h { w with host := host }
  | ask r k ih =>
    exact Action.alike_bind (Action.alike_attempt (hp r h.1)) fun reply => ih reply (h.2 reply)

/-- At every depth, the engine of a library leaves what lasts in place. -/
theorem Library.engine_alike {allowed : Request κ → Prop} {I : Realm κ → Prop}
    (hI : Realm.Lasting allowed I) {lib : Library κ σ} (hl : lib.AsksOnly allowed) (depth : Nat) :
    (lib.engine depth).Alike I (lib.engine depth) := by
  induction depth with
  | zero =>
    exact ⟨fun _ _ _ => Action.alike_diverge, fun _ _ => Action.alike_diverge,
      fun _ => Action.alike_diverge⟩
  | succ depth ih =>
    have hp : ∀ req, allowed req →
        Action.Alike I ((lib.engine depth).perform req) ((lib.engine depth).perform req) :=
      fun req ha => Engine.perform_alike hI ih ha
    exact ⟨fun c this args => Program.run_alike hp (hl.apply c this args),
      fun c i => Program.run_alike hp (hl.produce c i), fun v => Engine.toText_alike hI ih v⟩

/-! ## Joins -/

namespace Realm

/-- The realms between the requests that nothing is nested in: the fresh one, and those that such a
request leaves behind when it ends, with a result or with a fault. -/
inductive AtRest (options : Options) : Realm κ → Prop where
  | fresh : AtRest options (.fresh options)
  | request {σ : Type} (lib : Library κ σ) (depth : Nat) (req : Request κ) {w : World κ σ}
      (h : AtRest options w.realm) (hends : ((lib.engine depth).perform req w).1 ≠ .diverged) :
      AtRest options ((lib.engine depth).perform req w).2.realm

/-- A request, and a conversion in particular, that ends with a result or a fault has left all joins
that it entered, whatever user code did in between. -/
theorem joining_perform (lib : Library κ σ) (depth : Nat) (req : Request κ) {w : World κ σ}
    (hends : ((lib.engine depth).perform req w).1 ≠ .diverged) :
    ((lib.engine depth).perform req w).2.realm.joining = w.realm.joining := by
  have hl : lib.AsksOnly fun _ => True :=
    ⟨fun _ _ _ => Program.asksOnly_any _, fun _ _ => Program.asksOnly_any _⟩
  have hI : Lasting (fun _ : Request κ => True) fun _ => True := lasting_true _
  have halike : Action.Alike (fun _ => True) ((lib.engine depth).perform req) _ :=
    Engine.perform_alike hI (Library.engine_alike hI hl depth) trivial
  exact ((halike w trivial).2 hends).2

theorem AtRest.joining {options : Options} {r : Realm κ} (h : AtRest options r) :
    r.joining = [] := by
  induction h with
  | fresh => rfl
  | request lib depth req h hends ih => rw [joining_perform lib depth req hends, ih]

/-- An array that is not being joined is joined: its text is not left empty. -/
theorem arrayText_of_not_joining (e : Engine κ σ) {o : ObjectId} {w : World κ σ}
    (ho : o ∉ w.realm.joining) :
    (e.arrayText o w).1 =
      (e.join o ⟨{ w.realm with joining := o :: w.realm.joining }, w.host⟩).1 := by
  show ((if o ∈ w.realm.joining then pure Text.empty else _ : Action κ σ Text) w).1 = _
  rw [if_neg ho]
  show (Action.bind (e.join o).attempt _
    ⟨{ w.realm with joining := o :: w.realm.joining }, w.host⟩).1 = _
  unfold Action.bind Action.attempt
  rcases e.join o ⟨{ w.realm with joining := o :: w.realm.joining }, w.host⟩ with ⟨outcome, w'⟩
  cases outcome with
  | done t => rfl
  | failed f => rfl
  | diverged => rfl

/-- Joins are always left again. A request that ends, and with it every conversion, leaves the
arrays being joined as they were, whatever user code it ran and however it ended; so between
requests that nothing is nested in no array is being joined, and the text of every array is that of
its elements. -/
theorem joins_left {options : Options} (lib : Library κ σ) (depth : Nat) :
    (∀ req (w : World κ σ), ((lib.engine depth).perform req w).1 ≠ .diverged →
      ((lib.engine depth).perform req w).2.realm.joining = w.realm.joining) ∧
    ∀ r : Realm κ, AtRest options r → r.joining = [] ∧
      ∀ o host, ((lib.engine depth).arrayText o ⟨r, host⟩).1 =
        ((lib.engine depth).join o ⟨{ r with joining := [o] }, host⟩).1 := by
  refine ⟨fun req w hends => joining_perform lib depth req hends, fun r hr => ?_⟩
  have hjoining : r.joining = [] := hr.joining
  refine ⟨hjoining, fun o host => ?_⟩
  have hout : o ∉ r.joining := by
    rw [hjoining]
    exact List.not_mem_nil
  rw [arrayText_of_not_joining _ (w := ⟨r, host⟩) hout, hjoining]

/-- The text of an array fails in the middle because a method of an element throws. Afterwards the
array has its text again, where the method returns undefined. -/
theorem joins_left_thrown :
    let thrower : Library Unit Unit :=
      ⟨fun _ _ _ => .fail (.thrown .null), fun _ _ => .pure none⟩
    let r : Realm Unit := [.createFunction ⟨"f", 0, .code (), [], []⟩, .create .ordinary none,
      .writeHidden ⟨11⟩ (.ofString "toString") (.object ⟨10⟩),
      .createArray #[.object ⟨11⟩]].foldl answer (fresh {})
    let failed := (thrower.engine 2).perform (.toText (.object ⟨12⟩)) ⟨r, ()⟩
    let e : Engine Unit Unit := Library.silent.engine 2
    failed.1.fault? = some (.thrown .null) ∧ failed.2.realm.joining = r.joining ∧
      AtRest {} failed.2.realm ∧
      (e.arrayText ⟨12⟩ ⟨failed.2.realm, ()⟩).1 =
        (e.join ⟨12⟩ ⟨{ failed.2.realm with joining := [⟨12⟩] }, ()⟩).1 ∧
      (e.arrayText ⟨12⟩ ⟨failed.2.realm, ()⟩).1 = .done (.ofString "undefined") := by
  intro thrower r failed e
  have hfault : failed.1.fault? = some (.thrown .null) := by decide +kernel
  have hends : failed.1 ≠ .diverged := fun h => by
    rw [h] at hfault
    cases hfault
  have hr : AtRest {} r := by
    refine .request Library.silent 1 _ (w := ⟨_, ()⟩) ?_ nofun
    refine .request Library.silent 1 _ (w := ⟨_, ()⟩) ?_ nofun
    refine .request Library.silent 1 _ (w := ⟨_, ()⟩) ?_ nofun
    exact .request Library.silent 1 _ (w := ⟨_, ()⟩) .fresh nofun
  have hrest : AtRest {} failed.2.realm := .request thrower 2 _ (w := ⟨r, ()⟩) hr hends
  have htext := ((joins_left Library.silent 2).2 failed.2.realm hrest).2 ⟨12⟩ ()
  exact ⟨hfault, (@joins_left _ _ {} thrower 2).1 _ _ hends, hrest, htext, by decide +kernel⟩

end Realm

end Ecma
