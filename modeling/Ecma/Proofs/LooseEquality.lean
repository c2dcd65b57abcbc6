import Ecma.Proofs.Rendering

/-!
# Loose equality

`Value.isLooselyEqual` states loose equality by its rules, with as many conversions as these ask
for. Only texts and truth values are ever converted, each of them once, so that a comparison is over
after two conversions and a limit of two never cuts one short (`Value.looselyEqualWithin_eq`). The
rules take no side, and of two values at most one is an object that is converted. A comparison
therefore runs the same user code, and ends in the same way, whichever value stands on the left.
-/

namespace Ecma

variable {κ σ : Type}

theorem Double.equal_comm (x y : Double) : x.equal y = y.equal x := by
  unfold Double.equal
  rw [Bool.and_comm (!x.isNaN), BEq.comm (a := x), Bool.and_comm x.isZero]

namespace Value

theorem sameType_comm (a b : Value) : sameType a b = sameType b a := by
  cases a <;> cases b <;> rfl

theorem strictEqual_comm (a b : Value) : strictEqual a b = strictEqual b a := by
  cases a <;> cases b
  case number.number x y => exact Double.equal_comm x y
  all_goals first | rfl | exact BEq.comm

theorem isObject_of_isNullish {v : Value} (h : v.isNullish = true) : v.isObject = false := by
  cases v with
  | object o => cases h
  | _ => rfl

/-! ## The rules -/

/-- How many conversions a value can still undergo in a comparison. -/
def conversions : Value → Nat
  | boolean _ | string _ => 1
  | _ => 0

/-- Loose equality of primitive values by its rules, without a limit: values of one type are
compared strictly, undefined and null are equal, a text that meets a number is read as one, a truth
value is taken as its number whatever it meets, and all other values differ. -/
def isLooselyEqual (a b : Value) : Bool :=
  if sameType a b then strictEqual a b
  else
    match a, b with
    | undefined, null | null, undefined => true
    | number x, string t => isLooselyEqual (number x) (number (numberOfText t))
    | string t, number y => isLooselyEqual (number (numberOfText t)) (number y)
    | boolean c, b => isLooselyEqual (number (boolean c).toNumber) b
    | a, boolean c => isLooselyEqual a (number (boolean c).toNumber)
    | _, _ => false
termination_by a.conversions + b.conversions
decreasing_by all_goals simp [conversions]

theorem conversions_le (a : Value) : a.conversions ≤ 1 := by
  cases a <;> simp [conversions]

/-! ## The limit -/

theorem looselyEqualWithin_of_sameType {a b : Value} (h : sameType a b = true) (steps : Nat) :
    looselyEqualWithin steps a b = strictEqual a b := by
  unfold looselyEqualWithin
  exact if_pos h

theorem looselyEqualWithin_boolean_left {b : Value} {c : Bool}
    (h : ¬sameType (boolean c) b = true) (n : Nat) :
    looselyEqualWithin (n + 1) (boolean c) b =
      looselyEqualWithin n (number (boolean c).toNumber) b := by
  cases b with
  | boolean d => exact absurd rfl h
  | _ => rfl

theorem looselyEqualWithin_boolean_right {a : Value} {c : Bool}
    (h : ¬sameType a (boolean c) = true) (n : Nat) :
    looselyEqualWithin (n + 1) a (boolean c) =
      looselyEqualWithin n a (number (boolean c).toNumber) := by
  cases a with
  | boolean d => exact absurd rfl h
  | _ => rfl

/-- A limit makes no difference if it allows all conversions that the two values can undergo. -/
theorem looselyEqualWithin_eq {steps : Nat} {a b : Value}
    (h : a.conversions + b.conversions ≤ steps) :
    looselyEqualWithin steps a b = isLooselyEqual a b := by
  fun_induction isLooselyEqual a b generalizing steps with
  | case1 a b hs => exact looselyEqualWithin_of_sameType hs steps
  | case2 hs => cases steps <;> rfl
  | case3 hs => cases steps <;> rfl
  | case4 x t hs ih =>
    obtain ⟨n, rfl⟩ := Nat.exists_eq_add_of_le' h
    exact ih (Nat.zero_le n)
  | case5 t y hs ih =>
    obtain ⟨n, rfl⟩ := Nat.exists_eq_add_of_le' h
    exact ih (Nat.zero_le n)
  | case6 c b hs ih =>
    obtain ⟨n, rfl⟩ := Nat.exists_eq_add_of_le' (Nat.le_of_add_right_le h)
    rw [conversions, looselyEqualWithin_boolean_left hs]
    refine ih ?_
    simp only [conversions] at h ⊢
    omega
  | case7 a c ha hs ih =>
    obtain ⟨n, rfl⟩ := Nat.exists_eq_add_of_le' (Nat.le_of_add_left_le h)
    rw [conversions, looselyEqualWithin_boolean_right hs]
    refine ih ?_
    simp only [conversions] at h ⊢
    omega
  | case8 a b hs ha hb hun hnu hnt htn =>
    -- no rule leads from one of the two types to the other
    cases steps <;> cases a <;> cases b <;> simp_all [looselyEqualWithin, isNullish, sameType]

/-- Two values undergo no more conversions than the limit allows. -/
theorem conversions_le_limit (a b : Value) : a.conversions + b.conversions ≤ conversionLimit := by
  have ha := conversions_le a
  have hb := conversions_le b
  rw [conversionLimit]
  omega

theorem looselyEqual_eq (a b : Value) : looselyEqual a b = isLooselyEqual a b :=
  looselyEqualWithin_eq (conversions_le_limit a b)

/-! ## Symmetry -/

/-- Each rule has a mirror image, which is the rule itself or another one. -/
theorem isLooselyEqual_comm (a b : Value) : isLooselyEqual a b = isLooselyEqual b a := by
  fun_induction isLooselyEqual a b with
  | case1 a b hs => rw [isLooselyEqual.eq_def, sameType_comm, if_pos hs, strictEqual_comm]
  | case2 hs => simp [isLooselyEqual, sameType]
  | case3 hs => simp [isLooselyEqual, sameType]
  | case4 x t hs ih =>
    rw [ih, isLooselyEqual.eq_def (string t)]
    rfl
  | case5 t y hs ih =>
    rw [ih, isLooselyEqual.eq_def (number y) (string t)]
    rfl
  | case6 c b hs ih =>
    rw [sameType_comm] at hs
    rw [ih, isLooselyEqual.eq_def b (boolean c), if_neg hs]
    cases b with
    | boolean d => exact absurd rfl hs
    | _ => rfl
  | case7 a c ha hs ih =>
    rw [sameType_comm] at hs
    rw [ih, isLooselyEqual.eq_def (boolean c) a, if_neg hs]
  | case8 a b hs ha hb hun hnu hnt htn =>
    rw [isLooselyEqual.eq_def, sameType_comm, if_neg hs]
    cases a <;> cases b <;> simp_all

theorem looselyEqual_comm (a b : Value) : looselyEqual a b = looselyEqual b a := by
  rw [looselyEqual_eq, isLooselyEqual_comm, looselyEqual_eq]

end Value

namespace Engine

open Ecma.Action

/-! ## Objects -/

section Primitives

variable {e : Engine κ σ} {o : ObjectId} {v : Value} {names : List String}

end Primitives

section Comparisons

variable (e : Engine κ σ) {a b : Value}

theorem comparand_of_converted (ha : a.isObject = true) (hb : b.isObject = false)
    (hn : b.isNullish = false) :
    e.comparand a b = e.toPrimitive .none a ∧ e.comparand b a = Pure.pure b :=
  ⟨if_pos (by simp [ha, hb, hn]), if_neg (by simp [hb])⟩

/-- Of an object and a primitive value other than undefined and null, the object is converted. -/
theorem looselyEqual_of_converted (ha : a.isObject = true) (hb : b.isObject = false)
    (hn : b.isNullish = false) :
    e.looselyEqual a b = (do return Value.looselyEqual (← e.toPrimitive .none a) b) ∧
      e.looselyEqual b a = (do return Value.looselyEqual b (← e.toPrimitive .none a)) := by
  obtain ⟨hconverted, hkept⟩ := comparand_of_converted e ha hb hn
  rw [looselyEqual, looselyEqual, hconverted, hkept]
  exact ⟨rfl, rfl⟩

theorem comparand_of_kept
    (h : a.isObject = b.isObject ∨ a.isNullish = true ∨ b.isNullish = true) :
    e.comparand a b = Pure.pure a := by
  refine if_neg ?_
  rcases h with h | h | h
  · simp [h]
  · simp [Value.isObject_of_isNullish h]
  · simp [h]

/-- All other values are compared as they are. -/
theorem looselyEqual_of_kept
    (h : a.isObject = b.isObject ∨ a.isNullish = true ∨ b.isNullish = true) :
    e.looselyEqual a b = Pure.pure (Value.looselyEqual a b) := by
  rw [looselyEqual, comparand_of_kept e h, comparand_of_kept e (h.imp Eq.symm Or.symm)]
  rfl

theorem looselyEqual_comm_of_object (ha : a.isObject = true) (hb : b.isObject = false) :
    e.looselyEqual a b = e.looselyEqual b a := by
  by_cases hn : b.isNullish = true
  · rw [looselyEqual_of_kept e (Or.inr (Or.inr hn)), looselyEqual_of_kept e (Or.inr (Or.inl hn)),
      Value.looselyEqual_comm]
  · rw [Bool.not_eq_true] at hn
    obtain ⟨hab, hba⟩ := looselyEqual_of_converted e ha hb hn
    rw [hab, hba]
    simp only [Value.looselyEqual_comm b]

theorem looselyEqual_comm (a b : Value) : e.looselyEqual a b = e.looselyEqual b a := by
  by_cases hsame : a.isObject = b.isObject
  · rw [looselyEqual_of_kept e (Or.inl hsame), looselyEqual_of_kept e (Or.inl hsame.symm),
      Value.looselyEqual_comm]
  · cases ha : a.isObject with
    | true =>
      have hb : b.isObject = false := by simpa [ha] using hsame
      exact looselyEqual_comm_of_object e ha hb
    | false =>
      have hb : b.isObject = true := by simpa [ha] using hsame
      exact (looselyEqual_comm_of_object e hb ha).symm

end Comparisons

end Engine

end Ecma
