import Ecma.Realm.Properties

/-!
# Actions on a world

A world is a realm together with the memory of its host, which user code shares. An action changes
the world and ends with a result or a fault, or does not end within the steps it was given. What an
action did before it failed stays done.

`κ` is the type of user code and `σ` the type of the host's memory.
-/

namespace Ecma

/-- A realm and the memory of its host. -/
structure World (κ σ : Type) where
  /-- The realm. -/
  realm : Realm κ
  /-- The memory of the host. -/
  host : σ

/-- How an action ends. -/
inductive Outcome (α : Type) where
  /-- With a result. -/
  | done (a : α)
  /-- With a fault. -/
  | failed (f : Fault)
  /-- Not within the given steps. -/
  | diverged
deriving Repr

/-- An action: what it ends with, and the world it leaves behind. -/
def Action (κ σ α : Type) : Type := World κ σ → Outcome α × World κ σ

namespace Action

variable {κ σ α β : Type}

/-- The action that does nothing. -/
def pure (a : α) : Action κ σ α := fun w => (.done a, w)

/-- One action after the other; the second is left out if the first has no result. -/
def bind (m : Action κ σ α) (f : α → Action κ σ β) : Action κ σ β := fun w =>
  match m w with
  | (.done a, w) => f a w
  | (.failed fault, w) => (.failed fault, w)
  | (.diverged, w) => (.diverged, w)

instance : Monad (Action κ σ) where
  pure := pure
  bind := bind

/-- Fails. -/
def fail (f : Fault) : Action κ σ α := fun w => (.failed f, w)

/-- Does not end within the given steps. -/
def diverge : Action κ σ α := fun w => (.diverged, w)

/-- The result of an action, or its fault as a result. -/
def attempt (m : Action κ σ α) : Action κ σ (Except Fault α) := fun w =>
  match m w with
  | (.done a, w) => (.done (.ok a), w)
  | (.failed f, w) => (.done (.error f), w)
  | (.diverged, w) => (.diverged, w)

/-- Ends with a result or a fault. -/
def ofExcept : Except Fault α → Action κ σ α
  | .ok a => pure a
  | .error f => fail f

/-- The realm as it is now. -/
def realm : Action κ σ (Realm κ) := fun w => (.done w.realm, w)

/-- Changes the realm. -/
def modifyRealm (f : Realm κ → Realm κ) : Action κ σ Unit := fun ⟨realm, host⟩ =>
  (.done (), ⟨f realm, host⟩)

/-- Reads the realm. -/
def read (f : Realm κ → Except Fault α) : Action κ σ α := fun w => ofExcept (f w.realm) w

/-- Changes the realm and has a result. -/
def change (f : Realm κ → α × Realm κ) : Action κ σ α := fun ⟨realm, host⟩ =>
  let (a, r) := f realm
  (.done a, ⟨r, host⟩)

/-- Changes the realm and has a result, or fails and changes nothing. -/
def changeOrFail (f : Realm κ → Except Fault (α × Realm κ)) : Action κ σ α := fun w =>
  match f w.realm with
  | .ok (a, r) => (.done a, { w with realm := r })
  | .error fault => (.failed fault, w)

/-- Changes the realm even if it fails. -/
def changeAndTry (f : Realm κ → Except Fault α × Realm κ) : Action κ σ α := fun ⟨realm, host⟩ =>
  let (a, r) := f realm
  ofExcept a ⟨r, host⟩

end Action

end Ecma
