import Mathlib
import ProcEngine.Value
import ProcEngine.Proofs.Number.Widening
/-!
# How values compare

Two integers are equal exactly when they are the same, but which of them is less is asked of the
floats that they are widened to. So of two integers that round to the same float, none is less than
the other, and a float can be equal to integers that differ from one another. Up to `2 ^ 53` neither
occurs.
-/

namespace ProcEngine

theorem widen_lt_iff (a b : Int64) : widen a < widen b ↔ rounded a.toInt < rounded b.toInt :=
  (carries_widen a).lt_iff (carries_widen b)

theorem widen_beq_iff (a b : Int64) : widen a == widen b ↔ rounded a.toInt = rounded b.toInt :=
  (carries_widen a).beq_iff (carries_widen b)

theorem widen_beq_self (a : Int64) : widen a == widen a :=
  (widen_beq_iff a a).2 rfl

/-- One of the three holds and no other. -/
def ExactlyOne (p q r : Prop) : Prop :=
  p ∧ ¬q ∧ ¬r ∨ ¬p ∧ q ∧ ¬r ∨ ¬p ∧ ¬q ∧ r

namespace Value

/-! ### Order -/

theorem lessThan_int_int (a b : Int64) :
    (int a).lessThan (int b) = .ok (decide (rounded a.toInt < rounded b.toInt)) := by
  have hfloats : (int a).lessThan (int b) = .ok (decide (widen a < widen b)) := rfl
  rw [hfloats, decide_eq_decide.2 (widen_lt_iff a b)]

theorem lessThan_int_iff (a b : Int64) :
    (int a).lessThan (int b) = .ok true ↔ rounded a.toInt < rounded b.toInt := by
  simp [lessThan_int_int]

theorem equals_int_int (a b : Int64) : (int a).equals (int b) ↔ a = b := by
  simp [equals]

/-- Up to `2 ^ 53` the order of integers is exact. -/
theorem lessThan_int_of_natAbs_le {a b : Int64} (ha : a.toInt.natAbs ≤ 2 ^ 53)
    (hb : b.toInt.natAbs ≤ 2 ^ 53) :
    (int a).lessThan (int b) = .ok (decide (a < b)) := by
  rw [lessThan_int_int, rounded_of_natAbs_le ha, rounded_of_natAbs_le hb]
  simp [Int64.lt_iff_toInt_lt]

/-- The order of two integers is that of the floats nearest to them, in the sense of
`rounded_nearest`. It never puts the greater first, and it leaves two of them without an order
exactly if they differ and have the same nearest float. -/
theorem lessThan_int (a b : Int64) :
    (int a).lessThan (int b) = .ok (decide (rounded a.toInt < rounded b.toInt)) ∧
      ((int a).lessThan (int b) = .ok true → a < b) ∧
      (ExactlyOne ((int a).lessThan (int b) = .ok true) ((int a).equals (int b))
          ((int b).lessThan (int a) = .ok true) ↔
        a = b ∨ rounded a.toInt ≠ rounded b.toInt) := by
  refine ⟨lessThan_int_int a b, ?_, ?_⟩
  · rw [lessThan_int_iff, Int64.lt_iff_toInt_lt]
    contrapose!
    exact fun h => rounded_mono h
  · rw [lessThan_int_iff, lessThan_int_iff, equals_int_int, ExactlyOne]
    rcases lt_trichotomy (rounded a.toInt) (rounded b.toInt) with h | h | h
    · have hne : a ≠ b := fun heq => h.ne (heq ▸ rfl)
      simp [h, h.ne, h.not_gt, hne]
    · simp [h]
    · have hne : a ≠ b := fun heq => h.ne' (heq ▸ rfl)
      simp [h, h.ne', h.not_gt, hne]

/-- The two integers next to each other from `2 ^ 53` on are neither equal nor in an order. -/
theorem lessThan_neighbours :
    ¬((int 9007199254740992).lessThan (int 9007199254740993) = .ok true ↔
        (9007199254740992 : Int64).toInt < (9007199254740993 : Int64).toInt) ∧
      ¬ExactlyOne ((int 9007199254740992).lessThan (int 9007199254740993) = .ok true)
        ((int 9007199254740992).equals (int 9007199254740993))
        ((int 9007199254740993).lessThan (int 9007199254740992) = .ok true) := by
  constructor
  · decide +kernel
  · unfold ExactlyOne
    decide +kernel

/-! ### Equality -/

/-- A float that is not a number. -/
def IsNaN : Value → Prop
  | float x => x.isNaN
  | _ => False

theorem equals_self_iff (a : Value) : a.equals a ↔ ¬a.IsNaN := by
  cases a <;> simp [equals, IsNaN]

theorem equals_comm (a b : Value) : a.equals b = b.equals a := by
  cases a <;> cases b <;> first | rfl | exact BEq.comm

/-- Two values that equal the same value are equal, unless they are integers and it is a float. -/
theorem equals_trans {a b c : Value} (hab : a.equals b) (hbc : b.equals c) :
    a.equals c ∨ ∃ (i : Int64) (x : Float) (j : Int64), a = int i ∧ b = float x ∧ c = int j := by
  cases b with
  | null =>
    cases a <;> cases c <;> simp_all [equals]
  | int k =>
    cases a <;> simp only [equals, beq_iff_eq, Bool.false_eq_true] at hab <;>
      cases c <;> simp only [equals, beq_iff_eq, Bool.false_eq_true] at hbc
    case int.int i j => exact .inl (by simp [equals, hab, hbc])
    case int.float i y => exact .inl (by simpa [equals, hab] using hbc)
    case float.int x j => exact .inl (by simpa [equals, hbc] using hab)
    case float.float x y => exact .inl (BEq.trans (BEq.symm hab) hbc)
  | float z =>
    cases a <;> simp only [equals, Bool.false_eq_true] at hab <;>
      cases c <;> simp only [equals, Bool.false_eq_true] at hbc
    case int.int i j => exact .inr ⟨i, z, j, rfl, rfl, rfl⟩
    case int.float i y => exact .inl (BEq.trans hab hbc)
    case float.int x j => exact .inl (BEq.trans hbc (BEq.symm hab))
    case float.float x y => exact .inl (BEq.trans hab hbc)
  | text s =>
    cases a <;> cases c <;> simp_all [equals]
  | object o =>
    cases a <;> cases c <;> simp_all [equals]
  | proc p =>
    cases a <;> cases c <;> simp_all [equals]

theorem equals_float_between (i j : Int64) :
    (∃ x, (int i).equals (float x) ∧ (float x).equals (int j)) ↔
      rounded i.toInt = rounded j.toInt := by
  rw [← widen_beq_iff]
  constructor
  · rintro ⟨x, hi, hj⟩
    exact BEq.trans hi (BEq.symm hj)
  · intro h
    exact ⟨widen i, widen_beq_self i, BEq.symm h⟩

/-- Equality is symmetric, and reflexive but for a float that is not a number. What equals the same
value is equal unless it is two different integers beside a float, and two integers have such a
float between them if and only if they round to the same one. -/
theorem equals_laws (a b c : Value) (i j : Int64) :
    (a.equals a ↔ ¬a.IsNaN) ∧
      a.equals b = b.equals a ∧
      (a.equals b → b.equals c →
        (a.equals c ↔ ¬∃ (m : Int64) (x : Float) (n : Int64), a = int m ∧ b = float x ∧
          c = int n ∧ m ≠ n)) ∧
      ((∃ x, (int i).equals (float x) ∧ (float x).equals (int j)) ↔
        rounded i.toInt = rounded j.toInt) := by
  refine ⟨equals_self_iff a, equals_comm a b, fun hab hbc => ⟨?_, fun hnot => ?_⟩,
    equals_float_between i j⟩
  · rintro hac ⟨i, x, j, rfl, rfl, rfl, hne⟩
    exact hne ((equals_int_int i j).1 hac)
  · rcases equals_trans hab hbc with hac | ⟨i, x, j, rfl, rfl, rfl⟩
    · exact hac
    · exact (equals_int_int i j).2 (by_contra fun hne => hnot ⟨i, x, j, rfl, rfl, rfl, hne⟩)

/-- A float equals both of two integers that round to it. -/
theorem equals_not_trans :
    ¬∀ a b c : Value, ¬a.IsNaN → ¬b.IsNaN → ¬c.IsNaN → a.equals b → b.equals c → a.equals c := by
  intro h
  have hfloat : ¬(Float.ofBits 0x4340000000000000).isNaN := by decide +kernel
  have hboth : (int 9007199254740993).equals (float (Float.ofBits 0x4340000000000000)) ∧
      (float (Float.ofBits 0x4340000000000000)).equals (int 9007199254740992) := by decide +kernel
  have hints := h _ (float _) _ id hfloat id hboth.1 hboth.2
  rw [equals_int_int] at hints
  exact absurd hints (by decide)

end Value

end ProcEngine
