import Ecma.Token.Complaint

/-!
# Reading from the front of the source

A reader takes characters from the front of the source and leaves the rest, whether it succeeds or
refuses: a refusal also says how far it got. A reader is *local* if the rest is always a suffix of
what it was given, which is what ties the raw text of a token to the source.
-/

namespace Ecma

/-- What a reader gives back: what was read, and what is left of the source, as characters or as a
place in it. -/
inductive Read (α : Type) (ρ : Type := List Char) where
  /-- Something was read, and this is left. -/
  | done (value : α) (rest : ρ)
  /-- Reading stopped here for this reason. -/
  | refused (complaint : Complaint) (rest : ρ)
deriving Repr

namespace Read

variable {α β ρ σ : Type}

/-- What was not consumed. -/
def rest : Read α ρ → ρ
  | done _ rest => rest
  | refused _ rest => rest

/-- Applies a function to what was read. -/
def map (f : α → β) : Read α ρ → Read β ρ
  | done a rest => done (f a) rest
  | refused c rest => refused c rest

/-- Applies a function to what is left. -/
def mapRest (g : ρ → σ) : Read α ρ → Read α σ
  | done a rest => done a (g rest)
  | refused c rest => refused c (g rest)

@[simp] theorem rest_done (a : α) (cs : ρ) : (done a cs).rest = cs := rfl

@[simp] theorem rest_refused (c : Complaint) (cs : ρ) : (refused c cs : Read α ρ).rest = cs := rfl

@[simp] theorem mapRest_done (g : ρ → σ) (a : α) (cs : ρ) :
    (done a cs).mapRest g = done a (g cs) := rfl

@[simp] theorem mapRest_refused (g : ρ → σ) (c : Complaint) (cs : ρ) :
    (refused c cs : Read α ρ).mapRest g = refused c (g cs) := rfl

@[simp] theorem rest_map (f : α → β) (r : Read α ρ) : (r.map f).rest = r.rest := by
  cases r <;> rfl

@[simp] theorem rest_mapRest (g : ρ → σ) (r : Read α ρ) : (r.mapRest g).rest = g r.rest := by
  cases r <;> rfl

theorem mapRest_map (f : α → β) (g : ρ → σ) (r : Read α ρ) :
    (r.map f).mapRest g = (r.mapRest g).map f := by
  cases r <;> rfl

theorem map_map {γ : Type} (f : α → β) (g : β → γ) (r : Read α) :
    (r.map f).map g = r.map (g ∘ f) := by
  cases r <;> rfl

theorem mapRest_eq_done {g : ρ → σ} {r : Read α ρ} {a : α} {cs : σ} :
    r.mapRest g = .done a cs ↔ ∃ rest, r = .done a rest ∧ g rest = cs := by
  cases r with
  | done b rest =>
    constructor
    · intro h
      cases h
      exact ⟨rest, rfl, rfl⟩
    · rintro ⟨rest', h, rfl⟩
      cases h
      rfl
  | refused complaint rest => simp

theorem mapRest_eq_refused {g : ρ → σ} {r : Read α ρ} {c : Complaint} {cs : σ} :
    r.mapRest g = .refused c cs ↔ ∃ rest, r = .refused c rest ∧ g rest = cs := by
  cases r with
  | done a rest => simp
  | refused complaint rest =>
    constructor
    · intro h
      cases h
      exact ⟨rest, rfl, rfl⟩
    · rintro ⟨rest', h, rfl⟩
      cases h
      rfl

theorem map_eq_done {f : α → β} {r : Read α} {b : β} {cs : List Char} :
    r.map f = .done b cs ↔ ∃ a, r = .done a cs ∧ f a = b := by
  cases r with
  | done a rest =>
    constructor
    · intro h
      cases h
      exact ⟨a, rfl, rfl⟩
    · rintro ⟨a', h, rfl⟩
      cases h
      rfl
  | refused complaint rest => simp [map]

theorem map_eq_refused {f : α → β} {r : Read α} {c : Complaint} {cs : List Char} :
    r.map f = .refused c cs ↔ r = .refused c cs := by
  cases r <;> simp [map]

end Read

/-- A reader: characters to what was read of them and what is left. -/
abbrev Reader (α : Type) := List Char → Read α

namespace Reader

variable {α β : Type}

/-- Reads nothing. -/
def pure (a : α) : Reader α := fun cs => .done a cs

/-- One reader after the other. -/
def bind (m : Reader α) (f : α → Reader β) : Reader β := fun cs =>
  match m cs with
  | .done a rest => f a rest
  | .refused c rest => .refused c rest

instance : Monad Reader where
  pure := pure
  bind := bind

/-- Refuses what comes next. -/
def refuse (c : Complaint) : Reader α := fun cs => .refused c cs

/-- Consumes one character, if there is one. -/
def skip : Reader Unit := fun cs => .done () (cs.drop 1)

/-- Whether the next character is of a class, without consuming it. -/
def next (p : Char → Bool) : Reader Bool := fun cs => .done (cs.head?.any p) cs

/-- Consumes the next character if it is this one, and says whether it was. -/
def skipIf (c : Char) : Reader Bool := fun cs =>
  match cs with
  | d :: rest => if d == c then .done true rest else .done false cs
  | [] => .done false []

/-- Consumes all leading characters of a class. -/
def takeWhile (p : Char → Bool) : Reader (List Char) := fun cs =>
  .done (cs.takeWhile p) (cs.dropWhile p)

/-- What is left is always a suffix of the input. -/
def Local (m : Reader α) : Prop := ∀ cs, (m cs).rest <:+ cs

theorem local_pure (a : α) : Local (Pure.pure a : Reader α) := fun _ => List.suffix_rfl

theorem local_refuse (c : Complaint) : Local (refuse c : Reader α) := fun _ => List.suffix_rfl

theorem local_bind {m : Reader α} {f : α → Reader β} (hm : Local m) (hf : ∀ a, Local (f a)) :
    Local (m >>= f) := by
  intro cs
  show (bind m f cs).rest <:+ cs
  have h := hm cs
  unfold bind
  split
  · rename_i a rest heq
    rw [heq] at h
    exact (hf a rest).trans h
  · rename_i c rest heq
    rw [heq] at h
    exact h

theorem local_ite {c : Prop} [Decidable c] {m n : Reader α} (hm : Local m) (hn : Local n) :
    Local (if c then m else n) := by
  split <;> assumption

theorem local_skip : Local skip := fun cs => List.drop_suffix 1 cs

theorem local_next (p : Char → Bool) : Local (next p) := fun _ => List.suffix_rfl

theorem local_skipIf (c : Char) : Local (skipIf c) := by
  intro cs
  unfold skipIf
  split
  · split
    · exact List.suffix_cons ..
    · exact List.suffix_rfl
  · exact List.suffix_rfl

theorem local_takeWhile (p : Char → Bool) : Local (takeWhile p) :=
  fun _ => List.dropWhile_suffix p

end Reader

/-- The characters that stand before a suffix. -/
def textBefore (cs rest : List Char) : List Char := cs.take (cs.length - rest.length)

theorem textBefore_nil (cs : List Char) : textBefore cs [] = cs := by
  simp [textBefore]

theorem textBefore_append_left (front rest : List Char) :
    textBefore (front ++ rest) rest = front := by
  simp [textBefore]

/-- The text before a suffix and the suffix make up the whole. -/
theorem textBefore_append {cs rest : List Char} (h : rest <:+ cs) :
    textBefore cs rest ++ rest = cs := by
  obtain ⟨front, rfl⟩ := h
  simp [textBefore]

end Ecma
