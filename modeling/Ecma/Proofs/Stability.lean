import Ecma.Proofs.ScopeStep

/-!
# Lexical names last

Once its declaration has run, a lexical name stays: whatever requests follow, whatever user code
they run, and even if an object comes to stand in for the scope, the name keeps its binding, how it
was declared, and, if it is a constant, its value. Only registering the same name in the same scope
again takes it back. `Binding.Outlives` is what one edit of the scope keeps, and
`Realm.outlives_of_leadsTo` what all that follows keeps.
-/

namespace Ecma

open Relation

variable {κ : Type}

namespace Binding

/-- The second binding is what the first one may have become since its declaration ran. -/
structure Outlives (b b' : Binding) : Prop where
  initialized : b'.initialized = true
  kind_eq : b'.kind = b.kind
  value_eq : b.isMutable = false → b'.value = b.value

namespace Outlives

variable {b b' b'' : Binding}

theorem refl (hi : b.initialized = true) : b.Outlives b := ⟨hi, rfl, fun _ => rfl⟩

theorem isMutable_eq (h : b.Outlives b') : b'.isMutable = b.isMutable := by
  rw [isMutable, isMutable, h.kind_eq]

theorem trans (h : b.Outlives b') (h' : b'.Outlives b'') : b.Outlives b'' := by
  refine ⟨h'.initialized, h'.kind_eq.trans h.kind_eq, fun hm => ?_⟩
  have hm' : b'.isMutable = false := by rw [h.isMutable_eq, hm]
  rw [h'.value_eq hm', h.value_eq hm]

end Outlives

/-- Only a binding that may change is assigned to. -/
theorem outlives_of_assign {b b' : Binding} {name : String} {v : Value}
    (ha : b.assign name v = .ok b') : b.Outlives b' := by
  unfold assign at ha
  split at ha
  · cases ha
  rename_i hi
  split at ha
  · cases ha
  rename_i hm
  obtain rfl := Except.ok.inj ha
  rw [Bool.not_eq_true, Bool.not_eq_false'] at hi
  refine ⟨hi, rfl, fun hm' => ?_⟩
  rw [hm'] at hm
  exact absurd rfl hm

end Binding

namespace Realm

variable {allowed : Request κ → Prop} {r r' : Realm κ} {s : ScopeId} {name : String} {b : Binding}

/-- A name whose declaration has run is declared again only as a function of sloppy code, and then
it was one before. -/
theorem outlives_of_mayRedeclare {kind : BindingKind} (hi : b.initialized = true)
    (hm : r.mayRedeclare b kind = true) (v : Value) : b.Outlives (.init kind v) := by
  simp only [mayRedeclare, hi, Bool.not_true, Bool.false_or, Bool.and_eq_true, beq_iff_eq] at hm
  obtain ⟨⟨-, hb⟩, rfl⟩ := hm
  refine ⟨rfl, hb.symm, fun hc => ?_⟩
  rw [Binding.isMutable, hb] at hc
  cases hc

/-- The requests other than registering a lexical name in a scope. -/
def Spares (s : ScopeId) (name : String) (req : Request κ) : Prop :=
  ∀ kind, req ≠ .createUninitialized s name kind

/-- One edit of the scope. -/
theorem outlives_of_edit {f : Scope → Scope} (he : r.Edit (Spares s name) s f)
    (hb : (r.scope s).lexical.get? name = some b) (hi : b.initialized = true) :
    ∃ b', (f (r.scope s)).lexical.get? name = some b' ∧ b.Outlives b' := by
  -- an edit of a lexical name is one of another name, or of a binding that it may be made of
  have hput : ∀ {x : String} {c : Binding}, (x = name → b.Outlives c) →
      ∃ b', ((r.scope s).putLexical x c).lexical.get? name = some b' ∧ b.Outlives b' := by
    intro x c hc
    rw [Scope.putLexical, OrderedMap.get?_insert]
    by_cases hx : name = x
    · exact ⟨c, if_pos hx, hc hx.symm⟩
    · exact ⟨b, by rw [if_neg hx, hb], .refl hi⟩
  have hkept : ∃ b', (r.scope s).lexical.get? name = some b' ∧ b.Outlives b' := ⟨b, hb, .refl hi⟩
  cases he with
  | @register x kind ha =>
    refine hput fun hx => ?_
    subst hx
    exact absurd rfl (ha kind)
  | @declareLexical x kind v hm =>
    refine hput fun hx => ?_
    subst hx
    exact outlives_of_mayRedeclare hi (hm b hb) v
  | @assignLexical x v c c' hc ha =>
    refine hput fun hx => ?_
    subst hx
    rw [hb] at hc
    obtain rfl := Option.some.inj hc
    exact Binding.outlives_of_assign ha
  | declareVar hk => exact hkept
  | addVar x v => exact hkept
  | assignVar hc ha => exact hkept
  | setVar x v => exact hkept
  | hoist x v =>
    dsimp only
    split <;> exact hkept
  | dropVar x => exact hkept
  | link o => exact hkept

/-- One change of the scopes. -/
theorem outlives_of_scopeStep (h : ScopeStep (Spares s name) r r')
    (hb : (r.scope s).lexical.get? name = some b) (hi : b.initialized = true) :
    ∃ b', (r'.scope s).lexical.get? name = some b' ∧ b.Outlives b' := by
  rcases h.scope_cases s with heq | ⟨hdefault, -⟩ | ⟨f, he, heq⟩
  · exact ⟨b, by rw [heq, hb], .refl hi⟩
  · rw [hdefault] at hb
    cases hb
  · rw [heq]
    exact outlives_of_edit he hb hi

/-- Any number of changes of the scopes. -/
theorem outlives_of_scopeSteps (h : ReflTransGen (ScopeStep (Spares s name)) r r')
    (hb : (r.scope s).lexical.get? name = some b) (hi : b.initialized = true) :
    ∃ b', (r'.scope s).lexical.get? name = some b' ∧ b.Outlives b' := by
  induction h with
  | refl => exact ⟨b, hb, .refl hi⟩
  | tail _ hstep ih =>
    obtain ⟨b₁, hb₁, h₁⟩ := ih
    obtain ⟨b₂, hb₂, h₂⟩ := outlives_of_scopeStep hstep hb₁ h₁.initialized
    exact ⟨b₂, hb₂, h₁.trans h₂⟩

/-! ## All that follows -/

/-- The realms that allowed requests lead to from a realm, in the middle of a request as well. -/
inductive LeadsTo (allowed : Request κ → Prop) (r : Realm κ) : Realm κ → Prop where
  | refl : LeadsTo allowed r r
  | request {σ : Type} {lib : Library κ σ} (hl : lib.AsksOnly allowed) (depth : Nat)
      {req : Request κ} (ha : allowed req) {w : World κ σ} (h : LeadsTo allowed r w.realm) :
      LeadsTo allowed r ((lib.engine depth).perform req w).2.realm
  | step {r' r'' : Realm κ} (h : LeadsTo allowed r r') (hs : Step allowed r' r'') :
      LeadsTo allowed r r''

theorem LeadsTo.steps (h : LeadsTo allowed r r') : ReflTransGen (Step allowed) r r' := by
  induction h with
  | refl => exact .refl
  | request hl depth ha h ih =>
    exact ih.trans (Engine.perform_takes (Library.engine_takes hl depth) ha _)
  | step h hs ih => exact ih.tail hs

theorem LeadsTo.scopeSteps (h : LeadsTo allowed r r') : ReflTransGen (ScopeStep allowed) r r' := by
  have hsteps := h.steps
  clear h
  induction hsteps with
  | refl => exact .refl
  | tail _ hstep ih => exact ih.trans hstep.scopeSteps

theorem LeadsTo.options_eq (h : LeadsTo allowed r r') : r'.options = r.options := by
  have hsteps := h.scopeSteps
  clear h
  induction hsteps with
  | refl => rfl
  | tail _ hstep ih => exact hstep.options_eq.trans ih

/-- In strict code, no lexical declaration goes over a name whose declaration has run. -/
theorem declare_refused (hstrict : r.options.strict = true)
    (hb : (r.scope s).lexical.get? name = some b) (hi : b.initialized = true) {kind : BindingKind}
    (hk : (r.scope s).isLexical kind = true) (v : Value) :
    r.declare s name kind v = (.error (.alreadyDeclared name), r) := by
  have hmay : r.mayRedeclare b kind = false := by simp [mayRedeclare, hi, hstrict]
  simp [declare, hk, hb, hmay]

/-- A lexical name whose declaration has run keeps its binding through all requests but one that
registers it anew in its scope: the declaration still counts as run, the name is declared as before,
and a constant has its value. In strict code, every declaration that goes to the lexical names of
the scope is refused all the while. -/
theorem lexical_name_lasts {r r' : Realm κ} {s : ScopeId} {name : String} {b : Binding}
    (hb : (r.scope s).lexical.get? name = some b) (hi : b.initialized = true)
    (h : LeadsTo (Spares s name) r r') :
    (∃ b', (r'.scope s).lexical.get? name = some b' ∧ b'.initialized = true ∧ b'.kind = b.kind ∧
      b'.isMutable = b.isMutable ∧ (b.kind = .constName → b'.value = b.value)) ∧
    (r.options.strict = true → ∀ kind v,
      (kind = .letName ∨ kind = .constName ∨
        kind = .functionName ∧ (r'.scope s).kind = .block) →
      r'.declare s name kind v = (.error (.alreadyDeclared name), r')) := by
  obtain ⟨b', hb', hlives⟩ := outlives_of_scopeSteps h.scopeSteps hb hi
  refine ⟨⟨b', hb', hlives.initialized, hlives.kind_eq, hlives.isMutable_eq, fun hc => ?_⟩, ?_⟩
  · refine hlives.value_eq ?_
    rw [Binding.isMutable, hc]
    rfl
  · intro hstrict kind v hkind
    have hlexical : (r'.scope s).isLexical kind = true := by
      rcases hkind with rfl | rfl | ⟨rfl, hblock⟩
      · rfl
      · rfl
      · rw [Scope.isLexical, Scope.isBlock, hblock]
        rfl
    rw [← h.options_eq] at hstrict
    exact declare_refused hstrict hb' hlives.initialized hlexical v

/-- A constant of the global scope of strict code, behind a builtin and a property of its name and
an attempt to assign to it. -/
theorem lexical_name_lasts_hidden :
    let r := ((fresh { strict := true } : Realm Unit).declare ⟨0⟩ "x" .constName (.boolean true)).2
    let r' := (((r.defineBuiltin "x" .null).setInScope ⟨0⟩ "x" .null).2.collect [] []).2
    (r.scope ⟨0⟩).lexical.get? "x" = some (.init .constName (.boolean true)) ∧
      LeadsTo (Spares ⟨0⟩ "x") r r' ∧
      (∃ b', (r'.scope ⟨0⟩).lexical.get? "x" = some b' ∧ b'.initialized = true ∧
        b'.kind = .constName ∧ b'.isMutable = false ∧ b'.value = .boolean true) ∧
      r'.declare ⟨0⟩ "x" .letName .null = (.error (.alreadyDeclared "x"), r') := by
  intro r r'
  have hb : (r.scope ⟨0⟩).lexical.get? "x" = some (.init .constName (.boolean true)) := by
    decide +kernel
  have h : LeadsTo (Spares ⟨0⟩ "x") r r' :=
    ((LeadsTo.refl.step (.defineBuiltin nofun)).step (.setInScope nofun)).step (.collect _ [] [])
  obtain ⟨⟨b', hb', hi, hk, hm, hv⟩, hstrict⟩ := lexical_name_lasts hb rfl h
  have hrefused := hstrict (by decide +kernel) .letName .null (Or.inl rfl)
  exact ⟨hb, h, ⟨b', hb', hi, hk, hm, hv rfl⟩, hrefused⟩

end Realm

end Ecma
