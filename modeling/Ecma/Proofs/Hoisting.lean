import Ecma.Proofs.Declaration
import Ecma.Proofs.OwnProperty
import Ecma.Proofs.Rendering

/-!
# Hoisting of functions in blocks

A function of a block becomes a variable of the nearest scope that is not a block's
(`Realm.Encloses`), unless a scope on the way there, or that scope itself, has the name as a lexical
one. If it does, `Realm.Hoisted` says all that is different afterwards: the variable, its mark, and
the property of an object that stands in for the scope (`Object.Carries`). A mark is always that of
a variable (`Realm.marksVars_of_reached`), so a name that is new in its scope was not marked before.
-/

namespace Ecma

variable {κ : Type}

theorem OrderedMap.keys_insert_eq {α β : Type} [DecidableEq α] (m : OrderedMap α β) (k : α)
    (v : β) : (m.insert k v).keys = if m.contains k then m.keys else m.keys ++ [k] := by
  rw [keys_insert]
  exact if_congr (m.mem_keys_iff k) rfl rfl

/-! ## Marks -/

/-- Only variables are marked as hoisted. -/
def Scope.MarksVars (scope : Scope) : Prop :=
  ∀ name ∈ scope.hoisted, scope.vars.contains name = true

namespace Scope.MarksVars

variable {scope : Scope}

theorem make (kind : ScopeKind) (outer : List ScopeId) : (Scope.make kind outer).MarksVars := by
  intro name hname
  cases hname

theorem putVar (h : scope.MarksVars) (name : String) (b : Binding) :
    (scope.putVar name b).MarksVars := by
  intro x hx
  rw [Scope.putVar, OrderedMap.contains, OrderedMap.get?_insert]
  split
  · rfl
  · exact h x hx

theorem setVar (h : scope.MarksVars) (name : String) (v : Value) :
    (scope.setVar name v).MarksVars := by
  intro x hx
  have hvar := h x hx
  rw [Scope.setVar, OrderedMap.contains, OrderedMap.get?_modify]
  split
  · rename_i hxn
    rw [Option.isSome_map, ← hxn]
    exact hvar
  · exact hvar

theorem unmarkHoisted (h : scope.MarksVars) (name : String) :
    (scope.unmarkHoisted name).MarksVars :=
  fun x hx => h x (List.mem_of_mem_filter hx)

theorem dropVar (h : scope.MarksVars) (name : String) : (scope.dropVar name).MarksVars := by
  intro x hx
  obtain ⟨hmem, hne⟩ := List.mem_filter.1 hx
  have hxn : x ≠ name := by simpa using hne
  rw [Scope.dropVar, Scope.unmarkHoisted, OrderedMap.contains, OrderedMap.get?_erase, if_neg hxn]
  exact h x hmem

end Scope.MarksVars

/-! ## The variable of a hoisted function -/

/-- The scope with the variable of a hoisted function. -/
def Scope.hoistVar (scope : Scope) (name : String) (v : Value) : Scope :=
  if scope.vars.contains name then scope.setVar name v
  else (scope.putVar name (.init .varName v)).markHoisted name

namespace Scope

theorem mem_hoisted_markHoisted (scope : Scope) (name x : String) :
    x ∈ (scope.markHoisted name).hoisted ↔ x = name ∨ x ∈ scope.hoisted := by
  unfold markHoisted
  dsimp only
  split
  · rename_i hmem
    exact ⟨Or.inr, fun h => h.elim (fun hx => hx ▸ hmem) id⟩
  · exact List.mem_cons

/-- A variable of the name takes the value, and a new one has it from the start. -/
theorem get?_vars_hoistVar (scope : Scope) (name x : String) (v : Value) :
    (scope.hoistVar name v).vars.get? x =
      if x = name then some ((scope.vars.get? name).elim (.init .varName v) (·.withValue v))
      else scope.vars.get? x := by
  unfold hoistVar OrderedMap.contains
  cases hvar : scope.vars.get? name with
  | some b =>
    simp only [Option.isSome_some, if_true, setVar, OrderedMap.get?_modify, hvar]
    rfl
  | none => exact OrderedMap.get?_insert _ _ _ _

theorem keys_vars_hoistVar (scope : Scope) (name : String) (v : Value) :
    (scope.hoistVar name v).vars.keys =
      if scope.vars.contains name then scope.vars.keys else scope.vars.keys ++ [name] := by
  unfold hoistVar
  split
  · rename_i hvar
    obtain ⟨b, hb⟩ := Option.isSome_iff_exists.1 hvar
    simp only [setVar, OrderedMap.modify, hb]
    rw [OrderedMap.keys_insert_eq, if_pos hvar]
  · rename_i hvar
    show (scope.vars.insert name _).keys = _
    rw [OrderedMap.keys_insert_eq, if_neg hvar]

/-- A variable is marked by being made, and by nothing else. -/
theorem mem_hoisted_hoistVar (scope : Scope) (name x : String) (v : Value) :
    x ∈ (scope.hoistVar name v).hoisted ↔
      x ∈ scope.hoisted ∨ x = name ∧ scope.vars.contains name = false := by
  unfold hoistVar
  split
  · rename_i hvar
    rw [hvar]
    exact ⟨Or.inl, fun h => h.elim id fun h => absurd h.2 (by decide)⟩
  · rename_i hvar
    rw [Bool.not_eq_true] at hvar
    rw [mem_hoisted_markHoisted, hvar]
    show x = name ∨ x ∈ scope.hoisted ↔ _
    tauto

theorem hoistVar_rest (scope : Scope) (name : String) (v : Value) :
    { scope.hoistVar name v with vars := scope.vars, hoisted := scope.hoisted } = scope := by
  unfold hoistVar
  split
  · rfl
  · rfl

/-- What is different in a scope after a function has been hoisted to it. -/
structure Hoists (scope scope' : Scope) (name : String) (v : Value) : Prop where
  var : scope'.vars.get? name =
    some ((scope.vars.get? name).elim (.init .varName v) (·.withValue v))
  mark : name ∈ scope'.hoisted ↔ name ∈ scope.hoisted ∨ scope.vars.contains name = false
  otherVars : ∀ x, x ≠ name → scope'.vars.get? x = scope.vars.get? x
  otherMarks : ∀ x, x ≠ name → (x ∈ scope'.hoisted ↔ x ∈ scope.hoisted)
  keys : scope'.vars.keys =
    if scope.vars.contains name then scope.vars.keys else scope.vars.keys ++ [name]
  rest : { scope' with vars := scope.vars, hoisted := scope.hoisted } = scope

theorem hoists_hoistVar (scope : Scope) (name : String) (v : Value) :
    scope.Hoists (scope.hoistVar name v) name v where
  var := by rw [get?_vars_hoistVar, if_pos rfl]
  mark := by simp [mem_hoisted_hoistVar]
  otherVars x hx := by rw [get?_vars_hoistVar, if_neg hx]
  otherMarks x hx := by simp [mem_hoisted_hoistVar, hx]
  keys := keys_vars_hoistVar scope name v
  rest := hoistVar_rest scope name v

theorem MarksVars.hoistVar {scope : Scope} (h : scope.MarksVars) (name : String) (v : Value) :
    (scope.hoistVar name v).MarksVars := by
  intro x hx
  rw [OrderedMap.contains, get?_vars_hoistVar]
  split
  · rfl
  · rename_i hxn
    rcases (mem_hoisted_hoistVar scope name x v).1 hx with hmem | ⟨hname, -⟩
    · exact h x hmem
    · exact absurd hname hxn

end Scope

namespace Realm

variable {r : Realm κ} {allowed : Request κ → Prop} {options : Options} {s : ScopeId}

theorem marksVars_of_edit {f : Scope → Scope} (he : r.Edit allowed s f)
    (h : (r.scope s).MarksVars) : (f (r.scope s)).MarksVars := by
  cases he with
  | register ha => exact h
  | declareLexical hm => exact h
  | assignLexical hb ha => exact h
  | declareVar hk => exact (h.putVar _ _).unmarkHoisted _
  | addVar name v => exact h.putVar name _
  | assignVar hb ha => exact h.putVar _ _
  | setVar name v => exact h.setVar name v
  | hoist name v => exact h.hoistVar name v
  | dropVar name => exact h.dropVar name
  | link o => exact h

theorem marksVars_of_reached (h : Reached allowed options r) (s : ScopeId) :
    (r.scope s).MarksVars := h.scope_induction .make marksVars_of_edit s

end Realm

/-! ## The property of a hoisted function -/

namespace OrderedMap

variable {α β : Type} [DecidableEq α] {k : α} {v : β}

theorem put_of_find? {entries : List (α × β)} (h : find? k entries = some v) :
    put k v entries = entries := by
  induction entries with
  | nil => cases h
  | cons e rest ih =>
    obtain ⟨k', v'⟩ := e
    rw [find?] at h
    rw [put]
    split at h
    · rename_i hk
      rw [if_pos hk, Option.some.inj h]
    · rename_i hk
      rw [if_neg hk, ih h]

/-- Writing what is there already changes nothing. -/
theorem insert_of_get? {m : OrderedMap α β} (h : m.get? k = some v) : m.insert k v = m := by
  have hput : put k v m.entries = m.entries := put_of_find? h
  simp only [insert, hput]

end OrderedMap

namespace Object

/-- The object after a value has been carried over to its property under a key. -/
def carry (o : Object κ) (key : Text) (v : Value) : Object κ :=
  o.putProperty key (((o.properties.get? key).map (·.withValue v)).getD (.data v true true false))

/-- An object shows a value under a key that another object did not have there, and is else the
same. A property with accessors is left alone, and one that is stored keeps its attributes. -/
structure Carries (o o' : Object κ) (key : Text) (v : Value) : Prop where
  accessor : ∀ g s e c, o.own? key = some (.accessor g s e c) → o' = o
  value : (∀ g s e c, o.own? key ≠ some (.accessor g s e c)) →
    ∃ w e c, o'.own? key = some (.data v w e c)
  attributes : ∀ u w e c, o.properties.get? key = some (.data u w e c) →
    o'.own? key = some (.data v w e c)
  created : o.own? key = none → o'.own? key = some (.data v true true false)
  others : ∀ k, k ≠ key → o'.own? k = o.own? k
  keys : o'.properties.keys =
    if o.properties.contains key then o.properties.keys else o.properties.keys ++ [key]
  rest : { o' with properties := o.properties } = o

/-- Elements show no accessors. -/
theorem get?_of_own?_accessor {o : Object κ} {key : Text} {g s : Option Value} {e c : Bool}
    (h : o.own? key = some (.accessor g s e c)) :
    o.properties.get? key = some (.accessor g s e c) := by
  rcases Option.or_eq_some_iff.1 h with hget | ⟨-, helement⟩
  · exact hget
  · cases isAccessor_of_elementProperty? helement

theorem own?_carry (o : Object κ) (key : Text) (v : Value) :
    (o.carry key v).own? key =
      some (((o.properties.get? key).map (·.withValue v)).getD (.data v true true false)) := by
  rw [carry, own?_putProperty, if_pos rfl]

theorem carries_carry (o : Object κ) (key : Text) (v : Value) :
    o.Carries (o.carry key v) key v := by
  have hown := o.own?_carry key v
  refine ⟨fun g s e c h => ?_, fun h => ?_, fun u w e c h => ?_, fun h => ?_, fun k hk => ?_, ?_,
    rfl⟩
  · have hget := get?_of_own?_accessor h
    have hsame : o.properties.insert key (.accessor g s e c) = o.properties :=
      OrderedMap.insert_of_get? hget
    simp only [carry, putProperty, hget, Option.map_some, Option.getD_some, Property.withValue,
      hsame]
  · cases hget : o.properties.get? key with
    | none => exact ⟨true, true, false, by rw [hown, hget]; rfl⟩
    | some p =>
      cases p with
      | data u w e c => exact ⟨w, e, c, by rw [hown, hget]; rfl⟩
      | accessor g s e c => exact absurd (own?_of_get? hget) (h g s e c)
  · rw [hown, h]
    rfl
  · rw [hown, (Option.or_eq_none_iff.1 h).1]
    rfl
  · rw [carry, own?_putProperty, if_neg hk]
  · exact OrderedMap.keys_insert_eq _ _ _

end Object

/-! ## The walk to the scope -/

namespace Realm

variable {r : Realm κ} {b t : ScopeId} {blocks : List ScopeId} {name : String} {v : Value}

/-- The nearest scope around a scope that is not a block's, and the blocks on the way to it. -/
structure Encloses (r : Realm κ) (b : ScopeId) (blocks : List ScopeId) (t : ScopeId) : Prop where
  outer : ∃ rest, (r.scope b).outer = blocks ++ t :: rest
  isBlock : ∀ s ∈ blocks, (r.scope s).isBlock = true
  isBlock_target : (r.scope t).isBlock = false
  index_lt : t.index < r.scopes.size

theorem hoistTarget?_append (hblocks : ∀ s ∈ blocks, (r.scope s).isBlock = true)
    (ht : (r.scope t).isBlock = false) (name : String) (rest : List ScopeId) :
    r.hoistTarget? name (blocks ++ t :: rest) =
      if ∀ s ∈ blocks ++ [t], (r.scope s).lexical.contains name = false then some t else none := by
  -- the walk passes block after block, and the first lexical name on the way ends it
  induction blocks with
  | nil =>
    simp only [List.nil_append, hoistTarget?, ht, List.forall_mem_singleton]
    by_cases hlex : (r.scope t).lexical.contains name = true
    · simp [hlex]
    · simp [hlex]
  | cons s blocks ih =>
    have hs : (r.scope s).isBlock = true := hblocks s List.mem_cons_self
    have hrest := ih fun s' hs' => hblocks s' (List.mem_cons_of_mem _ hs')
    simp only [List.cons_append, hoistTarget?, hs, if_true, hrest, List.forall_mem_cons]
    by_cases hlex : (r.scope s).lexical.contains name = true
    · simp [hlex]
    · rw [if_neg hlex]
      exact if_congr (iff_and_self.2 fun _ => by simpa using hlex) rfl rfl

/-- Whether a function of a block is hoisted to a scope, past the blocks on the way to it. -/
def Hoists (r : Realm κ) (blocks : List ScopeId) (t : ScopeId) (name : String) : Prop :=
  r.options.strict = false ∧ r.options.hoisting = true ∧
    ∀ s ∈ blocks ++ [t], (r.scope s).lexical.contains name = false

theorem Encloses.hoistTarget?_eq (h : r.Encloses b blocks t) (name : String) :
    r.hoistTarget? name (r.scope b).outer =
      if ∀ s ∈ blocks ++ [t], (r.scope s).lexical.contains name = false then some t else none := by
  obtain ⟨rest, houter⟩ := h.outer
  rw [houter, hoistTarget?_append h.isBlock h.isBlock_target]

/-! ## What hoisting changes -/

/-- All that is different after a function has been hoisted to a scope. -/
structure Hoisted (r : Realm κ) (t : ScopeId) (name : String) (v : Value) (r' : Realm κ) :
    Prop where
  scope : (r.scope t).Hoists (r'.scope t) name v
  scopes : ∀ s, s ≠ t → r'.scope s = r.scope s
  object : ∀ o data, (r.scope t).linked = some o → r.heap.get? o = some data →
    ∃ data', r'.heap.get? o = some data' ∧ data.Carries data' (.ofString name) v
  objects : ∀ o, (r.scope t).linked ≠ some o → r'.heap.get? o = r.heap.get? o
  size_scopes : r'.scopes.size = r.scopes.size
  size_cells : r'.heap.cells.size = r.heap.cells.size
  rest : { r' with scopes := r.scopes, heap := { r'.heap with cells := r.heap.cells } } = r

theorem hoisted_of_unlinked (ht : t.index < r.scopes.size) (hl : (r.scope t).linked = none)
    (name : String) (v : Value) :
    r.Hoisted t name v (r.modifyScope t fun scope => scope.hoistVar name v) where
  scope := by
    rw [scope_modifyScope_self ht]
    exact Scope.hoists_hoistVar _ name v
  scopes s hs := scope_modifyScope_ne hs _
  object o data ho := by
    rw [hl] at ho
    cases ho
  objects o ho := rfl
  size_scopes := Array.size_modify
  size_cells := rfl
  rest := rfl

theorem hoisted_of_linked {o : ObjectId} {data : Object κ} (ht : t.index < r.scopes.size)
    (hl : (r.scope t).linked = some o) (hd : r.heap.get? o = some data) (name : String)
    (v : Value) :
    r.Hoisted t name v ((r.modifyScope t fun scope => scope.hoistVar name v).replaceObject o
      (data.carry (.ofString name) v)) where
  scope := by
    show (r.scope t).Hoists ((r.modifyScope t _).scope t) name v
    rw [scope_modifyScope_self ht]
    exact Scope.hoists_hoistVar _ name v
  scopes s hs := scope_modifyScope_ne hs _
  object p data' hp hd' := by
    obtain rfl := Option.some.inj (hl.symm.trans hp)
    obtain rfl := Option.some.inj (hd.symm.trans hd')
    exact ⟨_, get?_replaceObject_self hd _, data.carries_carry _ v⟩
  objects p hp := get?_replaceObject_of_ne (fun hpo : p = o => hp (hpo ▸ hl)) _
  size_scopes := Array.size_modify
  size_cells := Array.size_modify
  rest := rfl

theorem hoistFunction_of_target (hstrict : r.options.strict = false)
    (hhoisting : r.options.hoisting = true)
    (htarget : r.hoistTarget? name (r.scope b).outer = some t) (ht : t.index < r.scopes.size)
    (hlive : ∀ o, (r.scope t).linked = some o → r.heap.isLive o = true) (v : Value) :
    ∃ r', r.hoistFunction b name v = (.ok true, r') ∧ r.Hoisted t name v r' := by
  have hrun : r.hoistFunction b name v =
      let result := (r.modifyScope t fun scope => scope.hoistVar name v).publishLinked
        (r.scope t).linked name v
      (result.1.map fun _ => true, result.2) := by
    simp only [hoistFunction, hstrict, hhoisting, htarget]
    rfl
  rw [hrun]
  cases hl : (r.scope t).linked with
  | none => exact ⟨_, rfl, hoisted_of_unlinked ht hl name v⟩
  | some o =>
    obtain ⟨data, hd⟩ := Option.isSome_iff_exists.1 (hlive o hl)
    refine ⟨_, ?_, hoisted_of_linked ht hl hd name v⟩
    simp only [publishLinked, publish, heap_modifyScope, hd]
    cases hget : data.properties.get? (.ofString name) with
    | none => simp only [Object.carry, hget]; rfl
    | some p => simp only [Object.carry, hget]; rfl

theorem hoistFunction_of_refused
    (h : r.options.strict = true ∨ r.options.hoisting = false ∨
      r.hoistTarget? name (r.scope b).outer = none) (v : Value) :
    r.hoistFunction b name v = (.ok false, r) := by
  unfold hoistFunction
  rcases h with h | h | h
  · simp [h]
  · simp [h]
  · simp [h]

/-- Hoisting that does not take place changes nothing. -/
theorem hoistFunction_eq_false (h : (r.hoistFunction b name v).1 = .ok false) :
    (r.hoistFunction b name v).2 = r := by
  unfold hoistFunction at h ⊢
  split
  · rfl
  · rename_i hon
    rw [if_neg hon] at h
    split
    · rfl
    · rename_i htarget
      rw [htarget] at h
      dsimp only at h
      obtain ⟨u, -, hu⟩ := Except.map_eq_ok h
      cases hu

theorem Encloses.hoistFunction_of_hoists (henc : r.Encloses b blocks t)
    (hlive : ∀ o, (r.scope t).linked = some o → r.heap.isLive o = true)
    (h : r.Hoists blocks t name) (v : Value) :
    ∃ r', r.hoistFunction b name v = (.ok true, r') ∧ r.Hoisted t name v r' := by
  obtain ⟨hstrict, hhoisting, hfree⟩ := h
  have htarget : r.hoistTarget? name (r.scope b).outer = some t := by
    rw [henc.hoistTarget?_eq, if_pos hfree]
  exact hoistFunction_of_target hstrict hhoisting htarget henc.index_lt hlive v

theorem Encloses.hoistFunction_of_not_hoists (henc : r.Encloses b blocks t)
    (h : ¬r.Hoists blocks t name) (v : Value) : r.hoistFunction b name v = (.ok false, r) := by
  refine hoistFunction_of_refused ?_ v
  rw [henc.hoistTarget?_eq]
  by_contra hno
  simp only [not_or, Bool.not_eq_true, Bool.not_eq_false] at hno
  obtain ⟨hstrict, hhoisting, htarget⟩ := hno
  exact h ⟨hstrict, hhoisting, by_contra fun hfree => htarget (if_neg hfree)⟩

/-- Hoisting is exact. Only variables are ever marked as hoisted. A function of a block is hoisted
to the nearest scope that is not a block's exactly in sloppy code that hoists at all, and if neither
that scope nor a block on the way to it has the name as a lexical one, whether its declaration has
run or not. `Hoisted` says what is different then, and if it is not hoisted, nothing is. -/
theorem hoisting_exact {options : Options} (hr : Reached (fun _ => True) options r) :
    (∀ s name, name ∈ (r.scope s).hoisted → (r.scope s).vars.contains name = true) ∧
    ∀ b name v,
      ((r.hoistFunction b name v).1 = .ok false → (r.hoistFunction b name v).2 = r) ∧
      ∀ blocks t, r.Encloses b blocks t →
        (∀ o, (r.scope t).linked = some o → r.heap.isLive o = true) →
        ((r.hoistFunction b name v).1 = .ok true ↔ r.Hoists blocks t name) ∧
        ((r.hoistFunction b name v).1 = .ok false ↔ ¬r.Hoists blocks t name) ∧
        ((r.hoistFunction b name v).1 = .ok true →
          r.Hoisted t name v (r.hoistFunction b name v).2) := by
  refine ⟨marksVars_of_reached hr, fun b name v => ⟨hoistFunction_eq_false, ?_⟩⟩
  intro blocks t henc hlive
  by_cases hh : r.Hoists blocks t name
  · obtain ⟨r', hrun, hhoisted⟩ := henc.hoistFunction_of_hoists hlive hh v
    rw [hrun]
    exact ⟨iff_of_true rfl hh, iff_of_false nofun (not_not_intro hh), fun _ => hhoisted⟩
  · rw [henc.hoistFunction_of_not_hoists hh v]
    exact ⟨iff_of_false nofun hh, iff_of_true rfl hh, nofun⟩

/-- A function two blocks below the global scope becomes a global variable. -/
theorem hoisting_exact_global :
    let r : Realm Unit := [.addScope .block (some ⟨0⟩), .addScope .block (some ⟨1⟩)].foldl
      Realm.answer (Realm.fresh {})
    let result := r.hoistFunction ⟨2⟩ "f" (.boolean true)
    Reached (fun _ => True) {} r ∧ r.Encloses ⟨2⟩ [⟨1⟩] ⟨0⟩ ∧ (r.scope ⟨0⟩).linked = some ⟨9⟩ ∧
      r.heap.isLive ⟨9⟩ = true ∧ result.1 = .ok true ∧ r.Hoisted ⟨0⟩ "f" (.boolean true) result.2 ∧
      (r.scope ⟨0⟩).vars.contains "f" = false ∧ "f" ∈ (result.2.scope ⟨0⟩).hoisted := by
  intro r result
  have hr : Reached (fun _ => True) {} r := Reached.fresh.requests _ fun _ _ => trivial
  have henc : r.Encloses ⟨2⟩ [⟨1⟩] ⟨0⟩ := by
    refine ⟨⟨[], rfl⟩, ?_, rfl, by decide +kernel⟩
    rw [List.forall_mem_singleton]
    rfl
  have hl : (r.scope ⟨0⟩).linked = some ⟨9⟩ := rfl
  have hlive : r.heap.isLive ⟨9⟩ = true := by decide +kernel
  have hnew : (r.scope ⟨0⟩).vars.contains "f" = false := by decide +kernel
  have hhoists : r.Hoists [⟨1⟩] ⟨0⟩ "f" := by
    refine ⟨rfl, rfl, ?_⟩
    decide +kernel
  obtain ⟨htrue, -, hchange⟩ := ((hoisting_exact hr).2 ⟨2⟩ "f" (.boolean true)).2 [⟨1⟩] ⟨0⟩ henc
    fun o ho => Option.some.inj (hl.symm.trans ho) ▸ hlive
  have hhoisted := hchange (htrue.2 hhoists)
  exact ⟨hr, henc, hl, hlive, htrue.2 hhoists, hhoisted, hnew, hhoisted.scope.mark.2 (Or.inr hnew)⟩

end Realm

end Ecma
