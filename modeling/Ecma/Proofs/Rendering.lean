import Ecma.Proofs.Bracket
import Ecma.Proofs.Resolution
import Mathlib.Data.Finset.Card
import Mathlib.Data.Finset.Filter
import Mathlib.Data.Finset.Range

/-!
# Texts that end

In an inert realm, where reading a property runs no user code and no object has a method that gives
its text, the text of an object is made of the texts of its parts: an array lists its elements, an
error quotes its name and its message. Arrays are safe from cycles, since one that is met inside
itself is left out. Errors are not: the text of an error that quotes itself, directly or through
other errors, does not end. The main result `Realm.toText_ends_of_no_cycle` says that this is the
only danger: where no such cycle can be met, the text ends, and the texts nest no deeper than the
square of one more than the number of cells.
-/

namespace Ecma

open Relation

variable {κ σ α β : Type}

/-! ## Actions that end without a trace -/

namespace Action

/-- The action ends, with a result or a fault, and leaves the world as it was. -/
def Ends (m : Action κ σ α) (w : World κ σ) : Prop := ∃ x, m w = ofExcept x w

variable {w : World κ σ}

theorem ends_pure (a : α) : (pure a : Action κ σ α).Ends w := ⟨.ok a, rfl⟩

theorem ends_read (f : Realm κ → Except Fault α) : (read f : Action κ σ α).Ends w :=
  ⟨f w.realm, rfl⟩

theorem bind_failed {m : Action κ σ α} {f : α → Action κ σ β} {fault : Fault} {w' : World κ σ}
    (h : m w = (.failed fault, w')) : (m >>= f) w = (.failed fault, w') := by
  show Action.bind m f w = _
  rw [Action.bind, h]

theorem bind_diverged {m : Action κ σ α} {f : α → Action κ σ β} {w' : World κ σ}
    (h : m w = (.diverged, w')) : (m >>= f) w = (.diverged, w') := by
  show Action.bind m f w = _
  rw [Action.bind, h]

theorem bind_done {m : Action κ σ α} {f : α → Action κ σ β} {a : α} {w' : World κ σ}
    (h : m w = (.done a, w')) : (m >>= f) w = f a w' := by
  show Action.bind m f w = _
  rw [Action.bind, h]

theorem Ends.bind {m : Action κ σ α} {f : α → Action κ σ β} (hm : m.Ends w)
    (hf : ∀ a, m w = (.done a, w) → (f a).Ends w) : (m >>= f).Ends w := by
  obtain ⟨x, hx⟩ := hm
  cases x with
  | ok a =>
    obtain ⟨y, hy⟩ := hf a hx
    exact ⟨y, (bind_done hx).trans hy⟩
  | error fault => exact ⟨.error fault, bind_failed hx⟩

/-- The action does not end within the given steps. -/
def Diverges (m : Action κ σ α) (w : World κ σ) : Prop := ∃ w', m w = (.diverged, w')

theorem Diverges.bind {m : Action κ σ α} (hm : m.Diverges w) (f : α → Action κ σ β) :
    (m >>= f).Diverges w := by
  obtain ⟨w', hw'⟩ := hm
  exact ⟨w', bind_diverged hw'⟩

end Action

/-! ## Inert realms -/

theorem Object.isAccessor_of_elementProperty? {data : Object κ} {key : Text} {p : Property}
    (h : data.elementProperty? key = some p) : p.isAccessor = false := by
  obtain ⟨elements, -, h⟩ := Option.bind_eq_some_iff.1 h
  split at h
  · obtain rfl := Option.some.inj h
    rfl
  · obtain ⟨i, -, h⟩ := Option.bind_eq_some_iff.1 h
    obtain ⟨v, -, h⟩ := Option.bind_eq_some_iff.1 h
    obtain rfl := Option.some.inj h
    rfl

namespace Realm

/-- The value of a property, own or inherited, for which no function has to be called. -/
def valueAt (r : Realm κ) (o : ObjectId) (key : Text) : Except Fault Value :=
  (r.property? o key).map fun p => (p.bind Property.value?).getD .undefined

/-- No property has accessors, and no object has a method that gives its text. -/
structure Inert (r : Realm κ) : Prop where
  isAccessor : ∀ o data key p, r.heap.get? o = some data → data.properties.get? key = some p →
    p.isAccessor = false
  isCallable : ∀ name ∈ Hint.text.methods, ∀ o v, r.valueAt o (.ofString name) = .ok v →
    r.isCallable v = false

/-- The realm while other arrays are being joined. -/
def whileJoining (r : Realm κ) (js : List ObjectId) : Realm κ := { r with joining := js }

variable {r : Realm κ} {js : List ObjectId} {o x : ObjectId} {key : Text}

theorem findProperty_whileJoining (steps : Nat) :
    (r.whileJoining js).findProperty key steps o = r.findProperty key steps o := by
  induction steps generalizing o with
  | zero => rfl
  | succ steps ih =>
    have hobject : (r.whileJoining js).object o = r.object o := rfl
    simp only [findProperty, hobject, ih]

theorem isCallable_whileJoining (v : Value) :
    (r.whileJoining js).isCallable v = r.isCallable v := by
  cases v with
  | object o => rfl
  | _ => rfl

theorem Inert.noAccessor (hr : r.Inert) : r.heap.NoAccessor key o := by
  intro p data q _ hd hq
  rw [Object.own?, Option.or_eq_some_iff] at hq
  rcases hq with hq | ⟨-, hq⟩
  · exact hr.isAccessor p data key q hd hq
  · exact Object.isAccessor_of_elementProperty? hq

/-- In an inert realm, looking a property up gives its value. -/
theorem Inert.lookup_eq (hr : r.Inert) (js : List ObjectId) (o : ObjectId) (key : Text)
    (receiver : Value) :
    (r.whileJoining js).lookup o key receiver = (r.valueAt o key).map Lookup.value := by
  rw [lookup, property?, findProperty_whileJoining]
  show (r.property? o key).map _ = _
  rw [valueAt]
  cases hp : r.property? o key with
  | error f => rfl
  | ok found =>
    cases found with
    | none => rfl
    | some p =>
      have hdata : p.isAccessor = false := findProperty_isAccessor hp hr.noAccessor
      cases p with
      | data v w e c => rfl
      | accessor g s e c => cases hdata

/-- An error quotes the object that is its name or its message. -/
def Quotes (r : Realm κ) (o x : ObjectId) : Prop :=
  ∃ data, r.heap.get? o = some data ∧ data.kind = .error ∧
    (r.valueAt o (.ofString "name") = .ok (.object x) ∨
      r.valueAt o (.ofString "message") = .ok (.object x))

/-- An object that is no error and has dense elements lists the objects under its indices. -/
def Lists (r : Realm κ) (o x : ObjectId) : Prop :=
  ∃ data, r.heap.get? o = some data ∧ data.kind ≠ .error ∧ data.elements.isSome = true ∧
    ∃ i, r.valueAt o (.ofNat i) = .ok (.object x)

/-- The text of an object may need that of another one. -/
def Needs (r : Realm κ) (o x : ObjectId) : Prop := r.Quotes o x ∨ r.Lists o x

end Realm

/-! ## Texts of inert objects -/

namespace Engine

open Ecma.Action

section Inert

variable {r : Realm κ} (hr : r.Inert) (e : Engine κ σ) {js : List ObjectId} {o : ObjectId}
  {host : σ}
include hr

theorem get_inert (o : ObjectId) (key : Text) (receiver : Value) :
    e.get o key receiver ⟨r.whileJoining js, host⟩ =
      ofExcept (r.valueAt o key) ⟨r.whileJoining js, host⟩ := by
  have hlookup := hr.lookup_eq js o key receiver
  cases hv : r.valueAt o key with
  | ok v =>
    rw [hv] at hlookup
    rw [get, read_bind hlookup]
    rfl
  | error f =>
    rw [hv] at hlookup
    refine bind_failed ?_
    show ofExcept ((r.whileJoining js).lookup o key receiver) _ = _
    rw [hlookup]
    rfl

theorem get_of_valueAt {key : Text} {v : Value} (h : r.valueAt o key = .ok v)
    (receiver : Value) :
    e.get o key receiver ⟨r.whileJoining js, host⟩ = (.done v, ⟨r.whileJoining js, host⟩) := by
  rw [get_inert hr, h]
  rfl

theorem get_ends (o : ObjectId) (key : Text) (receiver : Value) :
    (e.get o key receiver).Ends ⟨r.whileJoining js, host⟩ := ⟨_, get_inert hr e o key receiver⟩

theorem valueAt_of_get {key : Text} {receiver v : Value} {w : World κ σ}
    (h : e.get o key receiver ⟨r.whileJoining js, host⟩ = (.done v, w)) :
    r.valueAt o key = .ok v := by
  rw [get_inert hr] at h
  cases hv : r.valueAt o key with
  | ok u =>
    rw [hv] at h
    cases h
    rfl
  | error f =>
    rw [hv] at h
    cases h

/-- Asking an inert object for its methods comes to nothing, or fails like the lookup of one. -/
theorem methodPrimitive_inert {names : List String} (hnames : names ⊆ Hint.text.methods) :
    e.methodPrimitive o false names ⟨r.whileJoining js, host⟩ =
        (.done none, ⟨r.whileJoining js, host⟩) ∨
      ∃ name ∈ names, ∃ f, r.valueAt o (.ofString name) = .error f ∧
        e.methodPrimitive o false names ⟨r.whileJoining js, host⟩ =
          (.failed f, ⟨r.whileJoining js, host⟩) := by
  induction names with
  | nil => exact Or.inl rfl
  | cons name names ih =>
    obtain ⟨hname, hrest⟩ := List.cons_subset.1 hnames
    cases hv : r.valueAt o (.ofString name) with
    | error f =>
      refine Or.inr ⟨name, List.mem_cons_self, f, hv, bind_failed ?_⟩
      rw [get_inert hr, hv]
      rfl
    | ok v =>
      have hnot : (r.whileJoining js).isCallable v = false := by
        rw [Realm.isCallable_whileJoining]
        exact hr.isCallable name hname o v hv
      have hskip : e.methodPrimitive o false (name :: names) ⟨r.whileJoining js, host⟩ =
          e.methodPrimitive o false names ⟨r.whileJoining js, host⟩ := by
        rw [methodPrimitive, bind_done (get_of_valueAt hr e hv _), realm_bind,
          if_neg (by rw [hnot]; nofun)]
      rw [hskip]
      rcases ih hrest with hnone | ⟨n, hn, f, hf, hfail⟩
      · exact Or.inl hnone
      · exact Or.inr ⟨n, List.mem_cons_of_mem _ hn, f, hf, hfail⟩

omit hr in
theorem toText_of_not_object {v : Value} (h : v.isObject = false) (w : World κ σ) :
    e.toText v w = ofExcept v.toText w := by
  cases v with
  | object o => cases h
  | _ => rfl

omit hr in
/-- Without methods, an object has the text of its own. -/
theorem toText_of_no_method {w : World κ σ}
    (h : e.methodPrimitive o false Hint.text.methods w = (.done none, w)) :
    e.toText (.object o) w = e.defaultText o w := by
  have hprimitive : e.toPrimitive .text (.object o) w =
      (e.defaultText o >>= fun t => Pure.pure (Value.string t)) w := by
    rw [toPrimitive, bind_done h]
  rcases hrun : e.defaultText o w with ⟨outcome, w'⟩
  cases outcome with
  | done t =>
    rw [bind_done hrun] at hprimitive
    exact bind_done hprimitive
  | failed f =>
    rw [bind_failed hrun] at hprimitive
    exact bind_failed hprimitive
  | diverged =>
    rw [bind_diverged hrun] at hprimitive
    exact bind_diverged hprimitive

omit hr in
theorem textOr_ends {w : World κ σ} (default : Text) {v : Value} (h : (e.text v).Ends w) :
    (e.textOr default v).Ends w := by
  cases v with
  | undefined => exact ends_pure default
  | _ => exact h

/-- The text of an error ends if those of its name and of its message do. -/
theorem errorText_ends
    (h : ∀ name ∈ ["name", "message"], ∀ v, r.valueAt o (.ofString name) = .ok v →
      (e.text v).Ends ⟨r.whileJoining js, host⟩) :
    (e.errorText o).Ends ⟨r.whileJoining js, host⟩ := by
  refine (get_ends hr e o _ _).bind fun name hname => ?_
  refine (textOr_ends e _ (h "name" (by simp) name (valueAt_of_get hr e hname))).bind fun _ _ => ?_
  refine (get_ends hr e o _ _).bind fun message hmessage => ?_
  refine (textOr_ends e _ (h "message" (by simp) message (valueAt_of_get hr e hmessage))).bind
    fun _ _ => ?_
  exact ends_pure _

theorem elementTexts_ends
    (h : ∀ i v, r.valueAt o (.ofNat i) = .ok v → (e.text v).Ends ⟨r.whileJoining js, host⟩)
    (count : Nat) : ∀ (texts : List Text) (i : Nat),
      (e.elementTexts o texts i count).Ends ⟨r.whileJoining js, host⟩ := by
  induction count with
  | zero => exact fun texts i => ends_pure _
  | succ count ih =>
    intro texts i
    refine (get_ends hr e o _ _).bind fun v hv => ?_
    have htext : (e.elementText v).Ends ⟨r.whileJoining js, host⟩ := by
      unfold elementText
      split
      · exact ends_pure _
      · exact h i v (valueAt_of_get hr e hv)
    exact htext.bind fun t _ => ih (t :: texts) (i + 1)

/-- The text of an array ends if the array is being joined already, or if the texts of its elements
end while it is. -/
theorem arrayText_ends
    (h : o ∉ js → ∀ i v, r.valueAt o (.ofNat i) = .ok v →
      (e.text v).Ends ⟨r.whileJoining (o :: js), host⟩) :
    (e.arrayText o).Ends ⟨r.whileJoining js, host⟩ := by
  by_cases ho : o ∈ (World.mk (r.whileJoining js) host).realm.joining
  · refine ⟨.ok .empty, ?_⟩
    rw [arrayText, realm_bind, if_pos ho]
    rfl
  · have hjoin : (e.join o).Ends ⟨r.whileJoining (o :: js), host⟩ := by
      refine (get_ends hr e o _ _).bind fun length _ => ?_
      exact (elementTexts_ends hr e (h ho) _ [] 0).bind fun _ _ => ends_pure _
    obtain ⟨x, hx⟩ := hjoin
    refine ⟨x, ?_⟩
    rw [arrayText, realm_bind, if_neg ho]
    have hattempt : (e.join o).attempt ⟨r.whileJoining (o :: js), host⟩ =
        (.done x, ⟨r.whileJoining (o :: js), host⟩) := by
      rw [attempt, hx]
      cases x with
      | ok t => rfl
      | error f => rfl
    exact bind_done hattempt

/-- The text of an inert object ends if those that it may need do. -/
theorem toText_object_ends
    (hprimitive : ∀ v, v.isObject = false → (e.text v).Ends ⟨r.whileJoining js, host⟩)
    (hquotes : ∀ x, r.Quotes o x → (e.text (.object x)).Ends ⟨r.whileJoining js, host⟩)
    (hlists : o ∉ js → ∀ v, (∀ x, v = .object x → r.Lists o x) →
      (e.text v).Ends ⟨r.whileJoining (o :: js), host⟩) :
    (e.toText (.object o)).Ends ⟨r.whileJoining js, host⟩ := by
  rcases methodPrimitive_inert hr e (List.Subset.refl Hint.text.methods) with
    hnone | ⟨name, -, f, -, hfail⟩
  · have hdefault : (e.defaultText o).Ends ⟨r.whileJoining js, host⟩ := by
      refine (ends_read _).bind fun data hread => ?_
      have hd : r.heap.get? o = some data := Realm.object_eq_ok.1 (read_eq_done hread).1
      split
      · rename_i hkind
        refine errorText_ends hr e fun name hname v hv => ?_
        cases v with
        | object x =>
          refine hquotes x ⟨data, hd, hkind, ?_⟩
          rcases List.mem_pair.1 hname with rfl | rfl
          · exact Or.inl hv
          · exact Or.inr hv
        | _ => exact hprimitive _ rfl
      · rename_i hkind
        split
        · rename_i helements
          refine arrayText_ends hr e fun ho i v hv => hlists ho v fun x hx => ?_
          subst hx
          exact ⟨data, hd, hkind, helements, i, hv⟩
        · cases data.callable <;> exact ends_pure _
    obtain ⟨x, hx⟩ := hdefault
    exact ⟨x, (toText_of_no_method e hnone).trans hx⟩
  · exact ⟨.error f, bind_failed (bind_failed hfail)⟩

end Inert

end Engine

/-! ## The measure -/

namespace Realm

variable {r : Realm κ} {js : List ObjectId} {o x : ObjectId}

/-- How many cells are not among some arrays. -/
def outside (r : Realm κ) (js : List ObjectId) : Nat :=
  ((Finset.range r.heap.cells.size).filter fun i => (⟨i⟩ : ObjectId) ∉ js).card

open Classical in
/-- How many cells the quotations from an object lead to, its own included. -/
noncomputable def quoted (r : Realm κ) (o : ObjectId) : Nat :=
  ((Finset.range r.heap.cells.size).filter fun i => ReflTransGen r.Quotes o ⟨i⟩).card

/-- How deep the text of an object may nest while some arrays are being joined. -/
noncomputable def nesting (r : Realm κ) (js : List ObjectId) (o : ObjectId) : Nat :=
  r.outside js * (r.heap.cells.size + 1) + r.quoted o

theorem quoted_le (r : Realm κ) (o : ObjectId) : r.quoted o ≤ r.heap.cells.size := by
  classical
  unfold quoted
  exact (Finset.card_filter_le _ _).trans_eq (Finset.card_range _)

theorem outside_le (r : Realm κ) (js : List ObjectId) : r.outside js ≤ r.heap.cells.size := by
  unfold outside
  exact (Finset.card_filter_le _ _).trans_eq (Finset.card_range _)

theorem nesting_lt (r : Realm κ) (js : List ObjectId) (o : ObjectId) :
    r.nesting js o < (r.heap.cells.size + 1) * (r.heap.cells.size + 1) := by
  have houtside := Nat.mul_le_mul_right (r.heap.cells.size + 1) (outside_le r js)
  have hquoted := quoted_le r o
  rw [nesting, Nat.succ_mul]
  omega

open Classical in
/-- What leads to something leads to more cells than that does, unless it is on a cycle. -/
theorem card_reached_lt {R : ObjectId → ObjectId → Prop} {n : Nat} (h : R o x) (ho : o.index < n)
    (hno : ¬TransGen R o o) :
    ((Finset.range n).filter fun i => ReflTransGen R x ⟨i⟩).card <
      ((Finset.range n).filter fun i => ReflTransGen R o ⟨i⟩).card := by
  refine Finset.card_lt_card (Finset.ssubset_iff_of_subset ?_ |>.2 ⟨o.index, ?_, ?_⟩)
  · intro i hi
    rw [Finset.mem_filter] at hi ⊢
    exact ⟨hi.1, hi.2.head h⟩
  · rw [Finset.mem_filter, Finset.mem_range]
    exact ⟨ho, .refl⟩
  · rw [Finset.mem_filter]
    rintro ⟨-, hback⟩
    exact hno (.head' h hback)

/-- Of two errors of which one quotes the other, the first leads to more cells, unless it is on a
cycle. -/
theorem nesting_of_quotes (h : r.Quotes o x) (hno : ¬TransGen r.Quotes o o) :
    r.nesting js x < r.nesting js o := by
  obtain ⟨data, hd, -⟩ := id h
  have hquoted : r.quoted x < r.quoted o := card_reached_lt h (Heap.lt_size_of_get? hd) hno
  rw [nesting, nesting]
  omega

/-- One array more being joined outweighs all quotations. -/
theorem nesting_of_lists (h : r.Lists o x) (ho : o ∉ js) :
    r.nesting (o :: js) x < r.nesting js o := by
  obtain ⟨data, hd, -⟩ := h
  have houtside : r.outside (o :: js) < r.outside js := by
    refine Finset.card_lt_card (Finset.ssubset_iff_of_subset ?_ |>.2 ⟨o.index, ?_, ?_⟩)
    · intro i hi
      rw [Finset.mem_filter] at hi ⊢
      exact ⟨hi.1, fun hmem => hi.2 (List.mem_cons_of_mem _ hmem)⟩
    · rw [Finset.mem_filter, Finset.mem_range]
      exact ⟨Heap.lt_size_of_get? hd, ho⟩
    · rw [Finset.mem_filter]
      exact fun hi => hi.2 List.mem_cons_self
  have hquoted := quoted_le r x
  have hstep := Nat.mul_le_mul_right (r.heap.cells.size + 1) (Nat.succ_le_of_lt houtside)
  rw [Nat.succ_mul] at hstep
  rw [nesting, nesting]
  omega

/-- No error that the text of an object may need quotes itself, directly or through others. -/
def NoCycle (r : Realm κ) (o : ObjectId) : Prop :=
  ∀ x, ReflTransGen r.Needs o x → ¬TransGen r.Quotes x x

theorem NoCycle.of_needs (h : r.NoCycle o) (hx : r.Needs o x) : r.NoCycle x :=
  fun y hy => h y (.head hx hy)

end Realm

/-- Within its measure, the text of an inert value ends. -/
theorem Library.toText_ends {r : Realm κ} (hr : r.Inert) (lib : Library κ σ) (depth : Nat) :
    ∀ (js : List ObjectId) (v : Value),
      (∀ o, v = .object o → r.NoCycle o ∧ r.nesting js o < depth) →
      ∀ host, ((lib.engine depth).toText v).Ends ⟨r.whileJoining js, host⟩ := by
  induction depth with
  | zero =>
    intro js v hv host
    cases v with
    | object o => exact absurd (hv o rfl).2 (Nat.not_lt_zero _)
    | _ => exact ⟨_, Engine.toText_of_not_object _ rfl _⟩
  | succ depth ih =>
    intro js v hv host
    cases v with
    | object o =>
      obtain ⟨hno, hlt⟩ := hv o rfl
      refine Engine.toText_object_ends hr _ (fun u hu => ?_) (fun x hx => ?_) fun ho u hu => ?_
      · refine ih js u (fun x hx => ?_) host
        rw [hx] at hu
        cases hu
      · refine ih js _ (fun y hy => ?_) host
        obtain rfl := Value.object.inj hy
        have hnesting : r.nesting js x < r.nesting js o := Realm.nesting_of_quotes hx (hno o .refl)
        exact ⟨hno.of_needs (Or.inl hx), by omega⟩
      · refine ih (o :: js) u (fun x hx => ?_) host
        have hlists := hu x hx
        have hnesting : r.nesting (o :: js) x < r.nesting js o := Realm.nesting_of_lists hlists ho
        exact ⟨hno.of_needs (Or.inr hlists), by omega⟩
    | _ => exact ⟨_, Engine.toText_of_not_object _ rfl _⟩

/-! ## Errors that quote themselves -/

namespace Realm

/-- The text of an error cannot do without that of another object: its methods can be looked up and
are none, and its name is that object, or its name is a plain text and its message is that
object. -/
def Insists (r : Realm κ) (o x : ObjectId) : Prop :=
  ∃ data, r.heap.get? o = some data ∧ data.kind = .error ∧
    (∀ name ∈ Hint.text.methods, ∃ v, r.valueAt o (.ofString name) = .ok v) ∧
    (r.valueAt o (.ofString "name") = .ok (.object x) ∨
      (∃ v t, r.valueAt o (.ofString "name") = .ok v ∧ v.isObject = false ∧ v.toText = .ok t) ∧
        r.valueAt o (.ofString "message") = .ok (.object x))

end Realm

namespace Engine

open Ecma.Action

section Diverging

variable {r : Realm κ} (hr : r.Inert) (e : Engine κ σ) {js : List ObjectId} {o x : ObjectId}
  {host : σ}
include hr

/-- Nothing comes back from the text of an object that an error insists on. A plain text before it
either comes back or does not end either. -/
theorem errorText_diverges (h : r.Insists o x)
    (hplain : ∀ v t, v.isObject = false → v.toText = .ok t →
      (e.text v).Diverges ⟨r.whileJoining js, host⟩ ∨
        e.text v ⟨r.whileJoining js, host⟩ = (.done t, ⟨r.whileJoining js, host⟩))
    (hx : (e.text (.object x)).Diverges ⟨r.whileJoining js, host⟩) :
    (e.errorText o).Diverges ⟨r.whileJoining js, host⟩ := by
  obtain ⟨data, -, -, -, hname | ⟨⟨v, t, hname, hv, ht⟩, hmessage⟩⟩ := h
  · obtain ⟨w, hw⟩ := hx.bind _
    exact ⟨w, (bind_done (get_of_valueAt hr e hname _)).trans hw⟩
  · have hrest : ∀ t, Diverges (e.get o (.ofString "message") (.object o) >>= fun message =>
        e.textOr .empty message >>= fun message => Pure.pure (joinErrorParts t message))
        ⟨r.whileJoining js, host⟩ := by
      intro t
      obtain ⟨w, hw⟩ := hx.bind _
      exact ⟨w, (bind_done (get_of_valueAt hr e hmessage _)).trans hw⟩
    have htext : (e.textOr (.ofString "Error") v).Diverges ⟨r.whileJoining js, host⟩ ∨
        ∃ t', e.textOr (.ofString "Error") v ⟨r.whileJoining js, host⟩ =
          (.done t', ⟨r.whileJoining js, host⟩) := by
      cases v with
      | undefined => exact Or.inr ⟨_, rfl⟩
      | _ => exact (hplain _ t hv ht).imp_right fun hdone => ⟨t, hdone⟩
    rcases htext with hdiverges | ⟨t', ht'⟩
    · obtain ⟨w, hw⟩ := hdiverges.bind _
      exact ⟨w, (bind_done (get_of_valueAt hr e hname _)).trans hw⟩
    · obtain ⟨w, hw⟩ := hrest t'
      exact ⟨w, ((bind_done (get_of_valueAt hr e hname _)).trans (bind_done ht')).trans hw⟩

/-- The text of an object is that of an error, if it is an error whose methods are none. -/
theorem toText_of_error {data : Object κ} (hd : r.heap.get? o = some data)
    (hkind : data.kind = .error)
    (hmethods : ∀ name ∈ Hint.text.methods, ∃ v, r.valueAt o (.ofString name) = .ok v) :
    e.toText (.object o) ⟨r.whileJoining js, host⟩ =
      e.errorText o ⟨r.whileJoining js, host⟩ := by
  rcases methodPrimitive_inert hr e (List.Subset.refl Hint.text.methods) with
    hnone | ⟨name, hname, f, hf, -⟩
  · rw [toText_of_no_method e hnone, defaultText,
      read_bind (w := ⟨r.whileJoining js, host⟩) (Realm.object_eq_ok.2 hd), if_pos hkind]
  · obtain ⟨v, hv⟩ := hmethods name hname
    rw [hv] at hf
    cases hf

/-- An error on a cycle insists on the next one, and so on for ever. -/
theorem toText_diverges_of_next (hcycle : TransGen r.Insists o o)
    (hplain : ∀ v t, v.isObject = false → v.toText = .ok t →
      (e.text v).Diverges ⟨r.whileJoining js, host⟩ ∨
        e.text v ⟨r.whileJoining js, host⟩ = (.done t, ⟨r.whileJoining js, host⟩))
    (hnext : ∀ x, TransGen r.Insists x x →
      (e.text (.object x)).Diverges ⟨r.whileJoining js, host⟩) :
    (e.toText (.object o)).Diverges ⟨r.whileJoining js, host⟩ := by
  obtain ⟨x, hx, hback⟩ := TransGen.head'_iff.1 hcycle
  obtain ⟨data, hd, hkind, hmethods, -⟩ := id hx
  obtain ⟨w, hw⟩ := errorText_diverges hr e hx hplain (hnext x (.tail' hback hx))
  exact ⟨w, (toText_of_error hr e hd hkind hmethods).trans hw⟩

end Diverging

end Engine

/-- The text of an error on a cycle does not end, whatever the depth. -/
theorem Library.toText_diverges {r : Realm κ} (hr : r.Inert) (lib : Library κ σ) (depth : Nat) :
    ∀ (js : List ObjectId) (o : ObjectId), TransGen r.Insists o o →
      ∀ host, ((lib.engine depth).toText (.object o)).Diverges ⟨r.whileJoining js, host⟩ := by
  induction depth with
  | zero =>
    intro js o hcycle host
    have hnever : ∀ v, ((lib.engine 0).text v).Diverges ⟨r.whileJoining js, host⟩ :=
      fun v => ⟨_, rfl⟩
    exact Engine.toText_diverges_of_next hr _ hcycle (fun v _ _ _ => Or.inl (hnever v))
      fun x _ => hnever _
  | succ depth ih =>
    intro js o hcycle host
    refine Engine.toText_diverges_of_next hr _ hcycle (fun v t hv ht => Or.inr ?_)
      fun x hx => ih js x hx host
    show (lib.engine depth).toText v _ = _
    rw [Engine.toText_of_not_object _ hv, ht]
    rfl

/-! ## Which texts end -/

namespace Realm

/-- The check of an inert realm, cell by cell. -/
def isInert (r : Realm κ) : Bool :=
  (r.heap.cells.all fun cell =>
      cell.all fun data => data.properties.values.all fun p => !p.isAccessor) &&
    (List.range r.heap.cells.size).all fun i => Hint.text.methods.all fun name =>
      (r.valueAt ⟨i⟩ (.ofString name)).toOption.all fun v => !r.isCallable v

variable {r : Realm κ} {o : ObjectId}

theorem get?_of_valueAt {key : Text} {v : Value} (h : r.valueAt o key = .ok v) :
    ∃ data, r.heap.get? o = some data := by
  obtain ⟨p, hp, -⟩ := Except.map_eq_ok h
  obtain ⟨data, hd, -⟩ := Except.bind_eq_ok hp
  exact ⟨data, object_eq_ok.1 hd⟩

theorem inert_of_isInert (h : r.isInert = true) : r.Inert := by
  obtain ⟨hcells, hmethods⟩ := Bool.and_eq_true_iff.1 h
  refine ⟨fun o data key p hd hp => ?_, fun name hname o v hv => ?_⟩
  · have hcell := Array.all_eq_true'.1 hcells _
      (Array.mem_of_getElem? (Heap.get?_eq_some_iff.1 hd))
    have hvalue := List.all_eq_true.1 hcell p ((OrderedMap.mem_values_iff _ _).2 ⟨key, hp⟩)
    rwa [Bool.not_eq_true'] at hvalue
  · obtain ⟨data, hd⟩ := get?_of_valueAt hv
    have hi := List.all_eq_true.1 hmethods o.index
      (List.mem_range.2 (Heap.lt_size_of_get? hd))
    have hchecked := List.all_eq_true.1 hi name hname
    rw [show r.valueAt ⟨o.index⟩ (.ofString name) = .ok v from hv] at hchecked
    rwa [Except.toOption, Option.all_some, Bool.not_eq_true'] at hchecked

/-- In an inert realm, the text of a value ends where no error that it may need quotes itself,
directly or through other errors, however arrays and errors refer to each other; texts nest no
deeper then than the square of one more than the number of cells. The text of an error that insists
on itself, directly or through other errors, does not end at any depth. -/
theorem toText_ends_of_no_cycle {r : Realm κ} (hr : r.Inert) (lib : Library κ σ) :
    (∀ v depth host, (∀ o, v = .object o → r.NoCycle o) →
      (r.heap.cells.size + 1) * (r.heap.cells.size + 1) ≤ depth →
        ((lib.engine depth).toText v).Ends ⟨r, host⟩) ∧
    ∀ o, TransGen r.Insists o o → ∀ depth host,
      ((lib.engine depth).toText (.object o) ⟨r, host⟩).1 = .diverged := by
  refine ⟨fun v depth host hno hdepth => ?_, fun o hcycle depth host => ?_⟩
  · refine Library.toText_ends hr lib depth r.joining v (fun o ho => ⟨hno o ho, ?_⟩) host
    exact Nat.lt_of_lt_of_le (r.nesting_lt _ o) hdepth
  · obtain ⟨w, hw⟩ := Library.toText_diverges hr lib depth r.joining o hcycle host
    exact congrArg Prod.fst hw

/-- An error and an array that refer to each other. -/
theorem toText_ends_of_no_cycle_mixed :
    let r : Realm Unit := [.createError .error "m", .createArray #[.object ⟨10⟩],
      .set ⟨10⟩ (.ofString "message") (.object ⟨11⟩)].foldl answer (fresh {})
    r.Inert ∧ r.Quotes ⟨10⟩ ⟨11⟩ ∧ r.Lists ⟨11⟩ ⟨10⟩ ∧ r.NoCycle ⟨10⟩ ∧
      ∀ depth, (r.heap.cells.size + 1) * (r.heap.cells.size + 1) ≤ depth →
        ((Library.silent.engine depth).toText (.object ⟨10⟩)).Ends ⟨r, ()⟩ := by
  intro r
  have hr : r.Inert := inert_of_isInert (by decide +kernel)
  have herrors : (List.range r.heap.cells.size).all (fun i =>
      (r.heap.get? ⟨i⟩).all fun data => data.kind != .error || i == 10) = true := by
    decide +kernel
  have hname : r.valueAt ⟨10⟩ (.ofString "name") = .ok (.ofString "Error") := by decide +kernel
  have hmessage : r.valueAt ⟨10⟩ (.ofString "message") = .ok (.object ⟨11⟩) := by decide +kernel
  have honly : ∀ x y, r.Quotes x y → x = ⟨10⟩ ∧ y = ⟨11⟩ := by
    rintro x y ⟨data, hd, hkind, hquotes⟩
    have hx := List.all_eq_true.1 herrors x.index (List.mem_range.2 (Heap.lt_size_of_get? hd))
    rw [show r.heap.get? ⟨x.index⟩ = some data from hd] at hx
    obtain rfl : x = ⟨10⟩ := by simpa [hkind, ← Heap.index_inj] using hx
    rw [hname, hmessage] at hquotes
    rcases hquotes with hquotes | hquotes
    · cases hquotes
    · cases hquotes
      exact ⟨rfl, rfl⟩
  have hno : r.NoCycle ⟨10⟩ := by
    intro x _ hcycle
    obtain ⟨y, hxy, hyx⟩ := TransGen.head'_iff.1 hcycle
    obtain ⟨rfl, rfl⟩ := honly x y hxy
    rcases hyx.cases_head with heq | ⟨z, hz, -⟩
    · cases heq
    · cases (honly _ z hz).1
  have hlive : (r.heap.get? ⟨10⟩).map (·.kind) = some .error ∧
      (r.heap.get? ⟨11⟩).map (fun data => (data.kind, data.elements.isSome)) =
        some (.array, true) := by decide +kernel
  obtain ⟨⟨data, hd, hkind⟩, hview⟩ := hlive.imp_left Option.map_eq_some_iff.1
  obtain ⟨data', hd', hview'⟩ := Option.map_eq_some_iff.1 hview
  obtain ⟨hkind', helements⟩ := Prod.mk.inj hview'
  refine ⟨hr, ⟨data, hd, hkind, Or.inr hmessage⟩, ⟨data', hd', ?_, helements, 0, ?_⟩, hno,
    fun depth hdepth => ?_⟩
  · rw [hkind']
    nofun
  · decide +kernel
  · refine (toText_ends_of_no_cycle hr Library.silent).1 _ depth () (fun o ho => ?_) hdepth
    obtain rfl := Value.object.inj ho
    exact hno

/-- An error whose message is itself has a text that does not end, although no function could be
called. -/
theorem toText_of_self_quoting_error :
    let r : Realm Unit := [.createError .error "m",
      .set ⟨10⟩ (.ofString "message") (.object ⟨10⟩)].foldl answer (fresh {})
    Reached (fun _ => True) {} r ∧ r.Inert ∧ ∀ depth,
      ((Library.silent.engine depth).toText (.object ⟨10⟩) ⟨r, ()⟩).1 = .diverged := by
  intro r
  have hr : r.Inert := inert_of_isInert (by decide +kernel)
  have hkind : (r.heap.get? ⟨10⟩).map (·.kind) = some .error := by decide +kernel
  obtain ⟨data, hd, hkind⟩ := Option.map_eq_some_iff.1 hkind
  have hinsists : r.Insists ⟨10⟩ ⟨10⟩ := by
    refine ⟨data, hd, hkind, fun name hname => ⟨.undefined, ?_⟩, Or.inr ⟨⟨.ofString "Error",
      .ofString "Error", ?_, rfl, rfl⟩, ?_⟩⟩
    · rcases List.mem_pair.1 hname with rfl | rfl
      · decide +kernel
      · decide +kernel
    · decide +kernel
    · decide +kernel
  refine ⟨Reached.fresh.requests _ fun _ _ => trivial, hr, fun depth => ?_⟩
  obtain ⟨w, hw⟩ :=
    Library.toText_diverges hr Library.silent depth r.joining ⟨10⟩ (.single hinsists) ()
  exact congrArg Prod.fst hw

end Realm

end Ecma
