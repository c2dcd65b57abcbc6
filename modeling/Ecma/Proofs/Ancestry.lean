import Ecma.Proofs.Ground
import Ecma.Proofs.Watch

/-!
# Every object has an ancestry

Requests that are permitted, made in careful runs, keep the heap of a realm grounded. For most of
them this is what the single operations do. Construction needs more: the prototype of the instance
is read from a property, possibly by running user code, so the value that reading gives must live
when it is used (`Engine.get_holds`). The main result `Realm.lineage_of_reachedUnder` says that in
every realm that can be met so, prototypes live and following them ends without meeting an object
twice.
-/

namespace Ecma

open Relation

variable {κ σ α β : Type}

/-! ## Actions, one start at a time -/

namespace Action

theorem bind_eq_done {m : Action κ σ α} {f : α → Action κ σ β} {w w' : World κ σ} {b : β}
    (h : (m >>= f) w = (.done b, w')) :
    ∃ a w'', m w = (.done a, w'') ∧ f a w'' = (.done b, w') := by
  change bind m f w = _ at h
  unfold bind at h
  split at h
  · rename_i a w'' hm
    exact ⟨a, w'', hm, h⟩
  · cases h
  · cases h

theorem read_eq_done {f : Realm κ → Except Fault α} {w w' : World κ σ} {a : α}
    (h : read f w = (.done a, w')) : f w.realm = .ok a ∧ w' = w := by
  unfold read at h
  cases hf : f w.realm with
  | ok b =>
    rw [hf] at h
    cases h
    exact ⟨rfl, rfl⟩
  | error fault =>
    rw [hf] at h
    cases h

end Action

/-- What leads from a realm with a grounded heap to another one. -/
abbrev KeepsGround (r r' : Realm κ) : Prop := r.heap.Grounded → r'.heap.Grounded

theorem bookkeeping_keepsGround : Realm.Bookkeeping (κ := κ) KeepsGround :=
  ⟨fun _ _ hg => hg, fun _ _ hg => hg, fun _ o p hg => hg.exhaust o p, fun _ _ hg => hg,
    fun _ hg => hg⟩

namespace Action

theorem Takes.grounded {m : Action κ σ α} (h : Takes KeepsGround m) {w : World κ σ}
    (hg : w.realm.heap.Grounded) : (m w).2.realm.heap.Grounded := by
  have hsteps := h w
  generalize (m w).2.realm = r at hsteps
  induction hsteps with
  | refl => exact hg
  | tail _ hs ih => exact hs ih

/-- The second of two actions may count on all that is known where the first one ends. -/
theorem bind_grounded {m : Action κ σ α} {f : α → Action κ σ β} {w : World κ σ}
    (hm : (m w).2.realm.heap.Grounded)
    (hf : ∀ a w', m w = (.done a, w') → w'.realm.heap.Grounded →
      (f a w').2.realm.heap.Grounded) : ((m >>= f) w).2.realm.heap.Grounded := by
  change (bind m f w).2.realm.heap.Grounded
  unfold bind
  split
  · rename_i a w' heq
    rw [heq] at hm
    exact hf a w' heq hm
  · rename_i fault w' heq
    rw [heq] at hm
    exact hm
  · rename_i w' heq
    rw [heq] at hm
    exact hm

theorem changeOrFail_grounded {f : Realm κ → Except Fault (α × Realm κ)} {w : World κ σ}
    (hg : w.realm.heap.Grounded) (hf : ∀ a r, f w.realm = .ok (a, r) → r.heap.Grounded) :
    (changeOrFail f w).2.realm.heap.Grounded := by
  unfold changeOrFail
  split
  · rename_i a r heq
    exact hf a r heq
  · exact hg

theorem changeOnSuccess_grounded {f : Realm κ → Except Fault (Realm κ)} {w : World κ σ}
    (hg : w.realm.heap.Grounded) (hf : ∀ r, f w.realm = .ok r → r.heap.Grounded) :
    (changeOrFail (fun r => (f r).map fun r => ((), r)) w).2.realm.heap.Grounded := by
  refine changeOrFail_grounded hg fun a r h => ?_
  obtain ⟨r', hr', heq⟩ := Except.map_eq_ok h
  obtain rfl := (Prod.mk.inj heq).2
  exact hf r' hr'

theorem changeAndTry_grounded {f : Realm κ → Except Fault α × Realm κ} {w : World κ σ}
    (hf : (f w.realm).2.heap.Grounded) : (changeAndTry f w).2.realm.heap.Grounded :=
  (takes_ofExcept (f w.realm).1).grounded (w := ⟨(f w.realm).2, w.host⟩) hf

end Action

/-! ## What lookups find lives -/

namespace Realm

variable {r : Realm κ}

theorem holds_of_findProperty (hg : r.heap.Grounded) {key : Text} {steps : Nat} {o : ObjectId}
    {p : Property} (h : r.findProperty key steps o = .ok (some p)) {v : Value}
    (hv : p.value? = some v) : r.heap.holds v = true := by
  induction steps generalizing o with
  | zero => cases h
  | succ steps ih =>
    obtain ⟨data, hd, h⟩ := Except.bind_eq_ok h
    have hd := object_eq_ok.1 hd
    split at h
    · rename_i q hq
      obtain rfl := Option.some.inj (Except.ok.inj h)
      exact (hg.holdsLive o data hd).own? r.heap.holds_of_not_isObject hq hv
    · split at h
      · exact ih h
      · cases h

theorem holds_of_lookup (hg : r.heap.Grounded) {o : ObjectId} {key : Text} {receiver v : Value}
    (h : r.lookup o key receiver = .ok (.value v)) : r.heap.holds v = true := by
  obtain ⟨found, hf, h⟩ := Except.map_eq_ok h
  unfold lookupOf at h
  split at h
  · obtain rfl := Lookup.value.inj h
    exact holds_of_findProperty hg hf rfl
  · cases h
  · obtain rfl := Lookup.value.inj h
    rfl
  · obtain rfl := Lookup.value.inj h
    rfl

end Realm

/-! ## Engines -/

namespace Engine

open Ecma.Action

/-- Running user code keeps heaps grounded, and what it returns lives. -/
structure Grounds (e : Engine κ σ) : Prop where
  takes : e.Takes KeepsGround
  holds : ∀ c this args w v w', e.apply c this args w = (.done v, w') →
    w'.realm.heap.holds v = true

variable {e : Engine κ σ} (he : e.Grounds)
include he

theorem behave_holds {this : Value} {args : List Value} {b : Behaviour κ} {w w' : World κ σ}
    {v : Value} (h : e.behave this args b w = (.done v, w')) : w'.realm.heap.holds v = true := by
  cases b with
  | idle =>
    cases h
    rfl
  | code c => exact he.holds c this args w v w' h

theorem call_holds {f this : Value} {args : List Value} {w w' : World κ σ} {v : Value}
    (h : e.call f this args w = (.done v, w')) : w'.realm.heap.holds v = true := by
  obtain ⟨b, w'', -, h⟩ := bind_eq_done h
  cases b with
  | none => cases h
  | some b => exact behave_holds he h

/-- Reading a property of a grounded heap gives what lives. -/
theorem get_holds {o : ObjectId} {key : Text} {receiver : Value} {w w' : World κ σ} {v : Value}
    (hg : w.realm.heap.Grounded) (h : e.get o key receiver w = (.done v, w')) :
    w'.realm.heap.holds v = true := by
  obtain ⟨found, w'', hread, h⟩ := bind_eq_done h
  obtain ⟨hfound, rfl⟩ := read_eq_done hread
  cases found with
  | value u =>
    cases h
    exact Realm.holds_of_lookup hg hfound
  | getter f receiver => exact call_holds he h

/-- The object that an instance is to inherit from lives. -/
theorem instancePrototype_isLive {f : Value} {w w' : World κ σ} {p : ObjectId}
    (hg : w.realm.heap.Grounded) (h : e.instancePrototype f w = (.done p, w')) :
    w'.realm.heap.isLive p = true := by
  cases f with
  | object o =>
    obtain ⟨v, w'', hget, h⟩ := bind_eq_done h
    have hv := get_holds he hg hget
    have hg' := (get_takes he.takes o Realm.prototypeKey (.object o)).grounded hg
    rw [hget] at hg'
    cases v with
    | object q =>
      cases h
      exact hv
    | _ =>
      cases h
      exact hg'.intrinsic .object
  | _ =>
    cases h
    exact hg.intrinsic .object

theorem construct_grounded (f : Value) (args : List Value) {w : World κ σ}
    (hg : w.realm.heap.Grounded) : (e.construct f args w).2.realm.heap.Grounded := by
  refine bind_grounded ((behaviourOf_takes _ f).grounded hg) fun b w1 _ hg1 => ?_
  cases b with
  | none => exact hg1
  | some b =>
    refine bind_grounded ((instancePrototype_takes he.takes f).grounded hg1) fun p w2 hp hg2 => ?_
    -- no user code runs between reading the prototype and making the instance
    have hlive := instancePrototype_isLive he hg1 hp
    have hg3 : (w2.realm.create .ordinary (some p)).2.heap.Grounded := by
      refine hg2.allocate (fun q hq => ?_) (.make _ _)
      obtain rfl := Option.some.inj hq
      exact hlive
    refine bind_grounded hg3 fun o w3 _ hg3 => ?_
    exact (takes_bind (behave_takes he.takes _ _ _) fun v => takes_pure _).grounded hg3

/-- An assignment keeps the heap grounded if storing the value does. -/
theorem assignment_grounded (v : Value) {f : Realm κ → Except Fault (Assignment κ)} {w : World κ σ}
    (hg : w.realm.heap.Grounded) (hf : ∀ r, f w.realm = .ok (.stored r) → r.heap.Grounded) :
    ((read f >>= e.finishAssignment v) w).2.realm.heap.Grounded := by
  refine bind_grounded ((takes_read _).grounded hg) fun a w' hread hg' => ?_
  obtain ⟨ha, rfl⟩ := read_eq_done hread
  cases a with
  | stored r => exact hf r ha
  | ignored => exact hg'
  | setter g receiver =>
    exact (takes_bind (call_takes he.takes g receiver [v]) fun _ => takes_pure ()).grounded hg'

/-- A permitted request keeps the heap grounded. -/
theorem perform_grounded {req : Request κ} {w : World κ σ} (hg : w.realm.heap.Grounded)
    (hp : w.realm.permitsLinks req = true) : (e.perform req w).2.realm.heap.Grounded := by
  have hb := bookkeeping_keepsGround (κ := κ)
  obtain ⟨hchecked, hlive, hcarried⟩ := Realm.permitsLinks_iff.1 hp
  cases req with
  | create kind prototype =>
    refine hg.allocate (fun p h => hlive (.object p) ?_) (.make _ _)
    obtain rfl : prototype = some p := h
    exact List.mem_singleton.2 rfl
  | createArray elements => exact hg.createArray fun v hv => hlive v (Array.mem_toList_iff.2 hv)
  | createFunction f => exact hg.createFunction f
  | createConstructor f g => exact hg.createConstructor f g
  | createError kind message => exact hg.createError kind message
  | createIterator code => exact hg.createIterator code
  | createSymbol description => exact hg
  | errorValue f => exact hg.errorValue f
  | get o key receiver => exact (get_takes he.takes o key receiver).grounded hg
  | set o key v =>
    have hv := hlive v (List.mem_cons_of_mem _ List.mem_cons_self)
    exact assignment_grounded he v hg fun r h => hg.assign hv h
  | define o key d =>
    refine changeOnSuccess_grounded hg fun r h => hg.define (fun v hv => hlive v ?_) h
    simp [Request.values, hv]
  | delete o key => exact changeOrFail_grounded hg fun b r h => hg.delete h
  | setPrototype o proto => exact changeOrFail_grounded hg fun b r h => hg.setPrototype h
  | preventExtensions o => exact changeOnSuccess_grounded hg fun r h => hg.preventExtensions h
  | writeHidden o key v => cases hchecked
  | writePrototype o proto => cases hchecked
  | writeSlot o name v => cases hchecked
  | writeElements o elements => cases hchecked
  | call f this args => exact (call_takes he.takes f this args).grounded hg
  | construct f args => exact construct_grounded he f args hg
  | iteratorNext o => exact (iteratorNext_takes he.takes hb o).grounded hg
  | toText v => exact (toText_takes he.takes hb v).grounded hg
  | toNumber v => exact (toNumber_takes he.takes hb v).grounded hg
  | toPropertyKey v => exact (toPropertyKey_takes he.takes hb v).grounded hg
  | toPrimitive v hint => exact (toPrimitive_takes he.takes hb hint v).grounded hg
  | looselyEqual a b => exact (looselyEqual_takes he.takes hb a b).grounded hg
  | addScope kind parent => exact hg
  | createUninitialized s name kind => exact hg
  | declare s name kind v =>
    have hstores := Realm.stores_declare w.realm s name kind v
    exact changeAndTry_grounded (hg.stores (hlive v List.mem_cons_self) hstores)
  | getBinding s name => exact (getBinding_takes he.takes s name).grounded hg
  | setBinding s name v =>
    have hv := hlive v List.mem_cons_self
    exact assignment_grounded he v hg fun r h => hg.assignName hv h
  | setInScope s name v =>
    have hstores := Realm.stores_setInScope w.realm s name v
    exact changeAndTry_grounded (hg.stores (hlive v List.mem_cons_self) hstores)
  | declareVar s name v deletable =>
    have hstores := Realm.stores_declareVar w.realm s name v deletable
    exact changeAndTry_grounded (hg.stores (hlive v List.mem_cons_self) hstores)
  | hoistFunction s name v =>
    have hstores := Realm.stores_hoistFunction w.realm s name v
    exact changeAndTry_grounded (hg.stores (hlive v List.mem_cons_self) hstores)
  | link s o => exact hg.link o fun b hb => hcarried b.value (List.mem_map.2 ⟨b, hb, rfl⟩)
  | defineBuiltin name v => exact hg.defineBuiltin name (hlive v List.mem_cons_self)
  | collect scopes values => exact hg.collect scopes values
  | collectIfDue scopes values => exact hg.collectIfDue scopes values

end Engine

/-! ## Programs under watch -/

theorem Program.asksOnly_any (p : Program κ σ α) : p.AsksOnly fun _ => True := by
  induction p with
  | pure a => trivial
  | fail f => trivial
  | look k ih => exact ih
  | store host next ih => exact ih
  | ask r k ih => exact ⟨trivial, ih⟩

namespace Action

theorem guard_takes {S : Realm κ → Realm κ → Prop} {ok : Realm κ → Bool} {m : Action κ σ α}
    (h : ∀ w, ok w.realm = true → S w.realm (m w).2.realm) : Takes S (m.guard ok) := by
  intro w
  unfold guard
  split
  · rename_i hok
    exact .single (h w hok)
  · exact .refl

theorem ensure_takes {S : Realm κ → Realm κ → Prop} (ok : Realm κ → α → Bool)
    {m : Action κ σ α} (h : Takes S m) : Takes S (m.ensure ok) := by
  refine takes_bind h fun a w => ?_
  unfold guard
  split <;> exact .refl

/-- A result that gets through was accepted where the action ended. -/
theorem accepted_of_ensure {ok : Realm κ → α → Bool} {m : Action κ σ α} {w w' : World κ σ} {a : α}
    (h : m.ensure ok w = (.done a, w')) : ok w'.realm a = true := by
  obtain ⟨b, w'', -, h⟩ := bind_eq_done h
  unfold guard at h
  split at h
  · rename_i hok
    cases h
    exact hok
  · cases h

end Action

namespace Library

/-- At every depth, user code under watch keeps heaps grounded and returns what lives. -/
theorem watched_grounds (lib : Library κ σ) (depth : Nat) :
    (lib.watched Realm.permitsLinks depth).Grounds := by
  induction depth with
  | zero =>
    refine ⟨⟨fun _ _ _ => Action.takes_diverge, fun _ _ => Action.takes_diverge,
      fun _ => Action.takes_diverge⟩, ?_⟩
    intro c this args w v w' h
    cases h
  | succ depth ih =>
    have hperform : ∀ req, True → Action.Takes KeepsGround
        (((lib.watched Realm.permitsLinks depth).perform req).guard (·.permitsLinks req)) :=
      fun req _ => Action.guard_takes fun w hp hg => Engine.perform_grounded ih hg hp
    -- requests that are not permitted leave the realm alone, so each request keeps the ground
    refine ⟨⟨fun c this args => ?_, fun c i => ?_, fun v => ?_⟩, ?_⟩
    · exact Action.ensure_takes _ (Program.run_takes hperform (lib.apply c this args).asksOnly_any)
    · exact Action.ensure_takes _ (Program.run_takes hperform (lib.produce c i).asksOnly_any)
    · exact Engine.toText_takes ih.takes bookkeeping_keepsGround v
    · exact fun c this args w v w' h => Action.accepted_of_ensure h

end Library

/-! ## Realms that careful runs lead to -/

namespace Realm

theorem grounded_of_reachedUnder {options : Options} {r : Realm κ}
    (h : ReachedUnder permitsLinks options r) : r.heap.Grounded := by
  induction h with
  | fresh => exact grounded_fresh options
  | request lib depth h hp hc ih =>
    rw [← hc]
    exact Engine.perform_grounded (lib.watched_grounds depth) ih hp
  | noted h hn ih => exact hn KeepsGround bookkeeping_keepsGround ih

/-- In every realm that careful runs lead to, as long as scopes are linked only while their
variables hold no dead handle, the prototype of an object that lives is absent or lives, and
following prototypes comes to an end without meeting an object twice. -/
theorem lineage_of_reachedUnder {options : Options} {r : Realm κ}
    (h : ReachedUnder permitsLinks options r) {o : ObjectId} {data : Object κ}
    (hd : r.heap.get? o = some data) :
    (∀ p, data.prototype = some p → r.heap.isLive p = true) ∧
      ∃ l, r.heap.Lineage o l ∧ l.Nodup := by
  obtain ⟨l, hl⟩ := (grounded_of_reachedUnder h).lineage o (Heap.isLive_of_get? hd)
  exact ⟨fun p hp => hl.isLive_prototype hd hp, l, hl, hl.nodup⟩

/-- A constructor with code of its own makes an object, which later stands in for a scope with a
variable. -/
theorem lineage_of_reachedUnder_constructed :
    let f : Callable Unit := ⟨"F", 0, .code (), [], []⟩
    let r := [.createConstructor f f, .construct (.object ⟨10⟩) [], .addScope .function (some ⟨0⟩),
      .declare ⟨1⟩ "x" .varName (.object ⟨11⟩), .link ⟨1⟩ ⟨12⟩].foldl answer (fresh {})
    ReachedUnder permitsLinks {} r ∧ ∃ data, r.heap.get? ⟨12⟩ = some data ∧
      data.prototype = some ⟨11⟩ ∧ r.heap.isLive ⟨11⟩ = true ∧
      ∃ l, r.heap.Lineage ⟨12⟩ l ∧ l.Nodup := by
  intro f r
  have h : ReachedUnder permitsLinks {} r := ReachedUnder.fresh.requests (by decide +kernel)
  have hproto : (r.heap.get? ⟨12⟩).map Object.prototype = some (some ⟨11⟩) := by decide +kernel
  obtain ⟨data, hd, hp⟩ := Option.map_eq_some_iff.1 hproto
  obtain ⟨hlive, hl⟩ := lineage_of_reachedUnder h hd
  exact ⟨h, data, hd, hp, hlive _ hp, hl⟩

/-- A variable of a scope that nothing refers to holds an object, which is collected then. The
constructor that the scope is linked to has no property for its instances to inherit from. -/
def staleVariable : List (Request Unit) :=
  [.createConstructor ⟨"F", 0, .idle, [], []⟩ ⟨"F", 0, .idle, [], []⟩,
    .define ⟨10⟩ prototypeKey { configurable := some true }, .delete ⟨10⟩ prototypeKey,
    .addScope .function (some ⟨0⟩), .create .ordinary (some Intrinsic.object.id),
    .declare ⟨1⟩ "prototype" .varName (.object ⟨12⟩)]

/-- Without a look at the variables of a linked scope, an object may become its own prototype: the
scope hands the dead handle on to the constructor, whose next instance gets that very cell. -/
theorem exists_own_prototype_of_stale_link :
    let before : Realm Unit := staleVariable.foldl answer (fresh {})
    let swept := before.answer (.collect [] [.object ⟨10⟩])
    let r := (swept.answer (.link ⟨1⟩ ⟨10⟩)).answer (.construct (.object ⟨10⟩) [])
    ReachedUnder permits {} r ∧ ∃ data, r.heap.get? ⟨12⟩ = some data ∧
      data.prototype = some ⟨12⟩ ∧ ∀ l, ¬r.heap.Lineage ⟨12⟩ l := by
  intro before swept r
  -- the walk of the collection recurses on what is left to visit, so it is counted out first
  let marks := before.markWithin 64 (before.roots ++ [.object ⟨10⟩])
  have hsome : marks.isSome = true := by decide +kernel
  have hswept : swept = before.withHeap (before.heap.sweep (marks.getD ⟨#[], #[]⟩)) := by
    obtain ⟨m, hm⟩ := Option.isSome_iff_exists.1 hsome
    rw [hm, Option.getD_some, ← mark_of_markWithin hm]
    rfl
  have hbefore : ReachedUnder permits {} before := ReachedUnder.fresh.requests (by decide +kernel)
  have hr : ReachedUnder permits {} r := by
    refine ((hbefore.answer (by decide +kernel)).answer ?_).answer ?_
    · show permits swept _ = true
      rw [hswept]
      decide +kernel
    · show permits (swept.answer _) _ = true
      rw [hswept]
      decide +kernel
  have hproto : (r.heap.get? ⟨12⟩).map Object.prototype = some (some ⟨12⟩) := by
    show (((swept.answer _).answer _).heap.get? _).map Object.prototype = _
    rw [hswept]
    decide +kernel
  obtain ⟨data, hd, hp⟩ := Option.map_eq_some_iff.1 hproto
  exact ⟨hr, data, hd, hp, fun l hl => hl.prototype_ne hd hp⟩

end Realm

end Ecma
