import Mathlib
import ProcEngine.Value
import ProcEngine.Proofs.Number.Widening
/-!
# A null beside an integer

Beside an integer a null counts as the float zero: the integer is widened, the floats are added or
subtracted, and the result is narrowed. What comes back is the integer itself only where it is a
float or lies at the end of the range at which narrowing happens to give it again. A product with a
null is zero always, as with an integer zero.
-/

namespace ProcEngine

/-- The integer that is left when one goes through a float. -/
def throughFloat (n : Int) : Int64 := Int64.ofInt (min (rounded n) (2 ^ 63 - 1))

theorem narrow_of_carries (i : Int64) {x : Float} (hx : Carries x (rounded i.toInt)) :
    narrow x = throughFloat i.toInt :=
  hx.narrow_eq (rounded_toInt_bounds i).1 (rounded_toInt_bounds i).2

theorem narrow_of_carries_neg (i : Int64) {x : Float} (hx : Carries x (-rounded i.toInt)) :
    narrow x = throughFloat (-i.toInt) := by
  obtain ⟨hlow, hhigh⟩ := rounded_toInt_bounds i
  rw [throughFloat, rounded_neg]
  exact hx.narrow_eq (by omega) (by omega)

theorem narrow_of_carries_zero {x : Float} (hx : Carries x 0) : narrow x = 0 := by
  rw [hx.narrow_eq (by omega) (by omega)]
  decide

theorem toInt_throughFloat {n : Int} (hlow : -2 ^ 63 ≤ rounded n) :
    (throughFloat n).toInt = min (rounded n) (2 ^ 63 - 1) :=
  Int64.toInt_ofInt_of_le (by omega) (by omega)

theorem rounded_maxValue : rounded (2 ^ 63 - 1) = 2 ^ 63 := by
  decide

/-- An integer is left as it is if it is a float, and at the upper end. -/
theorem throughFloat_eq_iff (x : Int64) :
    throughFloat x.toInt = x ↔ rounded x.toInt = x.toInt ∨ x = Int64.maxValue := by
  obtain ⟨hlow, hhigh⟩ := rounded_toInt_bounds x
  have hx := x.toInt_lt
  rw [← Int64.toInt_inj, ← Int64.toInt_inj, toInt_throughFloat hlow, Int64.toInt_maxValue]
  constructor
  · omega
  · rintro (h | h)
    · omega
    · rw [h, rounded_maxValue]
      decide

theorem toInt_neg_of_ne {x : Int64} (h : x.toInt ≠ -2 ^ 63) : (-x).toInt = -x.toInt := by
  have hlow := x.le_toInt
  have hhigh := x.toInt_lt
  rw [Int64.toInt_neg]
  exact Int.bmod_eq_of_le (by omega) (by omega)

/-- The opposite is right if the integer is a float and has one, and at the lowest integer that has
one. -/
theorem throughFloat_neg_eq_iff (x : Int64) :
    throughFloat (-x.toInt) = -x ↔
      rounded x.toInt = x.toInt ∧ x ≠ Int64.minValue ∨ x = -Int64.maxValue := by
  obtain ⟨hlow, hhigh⟩ := rounded_toInt_bounds x
  have hx := x.le_toInt
  have hmax : (-Int64.maxValue).toInt = -(2 ^ 63 - 1) := by decide
  rw [← Int64.toInt_inj, ne_eq, ← Int64.toInt_inj, ← Int64.toInt_inj, hmax, Int64.toInt_minValue,
    toInt_throughFloat (by rw [rounded_neg]; omega), rounded_neg]
  rcases eq_or_ne x.toInt (-2 ^ 63) with hmin | hmin
  · have hopposite : (-x).toInt = -2 ^ 63 := by
      rw [Int64.toInt_neg, hmin]
      decide
    have hkept : rounded x.toInt = -2 ^ 63 := by
      rw [hmin]
      decide
    rw [hopposite]
    omega
  · rw [toInt_neg_of_ne hmin]
    constructor
    · omega
    · rintro (h | h)
      · omega
      · rw [h, rounded_neg, rounded_maxValue]
        decide

namespace Value

/-! ### Results -/

theorem null_add_int (x : Int64) : null.add (int x) = .ok (int (throughFloat x.toInt)) := by
  rw [← narrow_of_carries x (carries_zero.zero_add (carries_widen x))]
  rfl

theorem int_add_null (x : Int64) : (int x).add null = .ok (int (throughFloat x.toInt)) := by
  rw [← narrow_of_carries x ((carries_widen x).add_zero carries_zero)]
  rfl

theorem int_sub_null (x : Int64) : (int x).sub null = .ok (int (throughFloat x.toInt)) := by
  rw [← narrow_of_carries x ((carries_widen x).sub_zero carries_zero)]
  rfl

theorem null_sub_int (x : Int64) : null.sub (int x) = .ok (int (throughFloat (-x.toInt))) := by
  rw [← narrow_of_carries_neg x (carries_zero.zero_sub (carries_widen x))]
  rfl

theorem null_mul_int (x : Int64) : null.mul (int x) = .ok (int 0) := by
  rw [← narrow_of_carries_zero (carries_zero.zero_mul (carries_widen x))]
  rfl

theorem int_mul_null (x : Int64) : (int x).mul null = .ok (int 0) := by
  rw [← narrow_of_carries_zero ((carries_widen x).mul_zero carries_zero)]
  rfl

/-- A null beside an integer gives what an integer zero gives: in a product always, and in a sum or
a difference if the integer, or its opposite, is kept on its way through a float. -/
theorem null_beside_int (x : Int64) :
    (null.add (int x) = .ok (int (throughFloat x.toInt)) ∧
      (int x).add null = .ok (int (throughFloat x.toInt)) ∧
      (int x).sub null = .ok (int (throughFloat x.toInt)) ∧
      null.sub (int x) = .ok (int (throughFloat (-x.toInt)))) ∧
    (null.mul (int x) = (int 0).mul (int x) ∧ (int x).mul null = (int x).mul (int 0)) ∧
    (null.add (int x) = (int 0).add (int x) ↔ rounded x.toInt = x.toInt ∨ x = Int64.maxValue) ∧
    ((int x).add null = (int x).add (int 0) ↔ rounded x.toInt = x.toInt ∨ x = Int64.maxValue) ∧
    ((int x).sub null = (int x).sub (int 0) ↔ rounded x.toInt = x.toInt ∨ x = Int64.maxValue) ∧
    (null.sub (int x) = (int 0).sub (int x) ↔
      rounded x.toInt = x.toInt ∧ x ≠ Int64.minValue ∨ x = -Int64.maxValue) := by
  have hresult (y z : Int64) : (Except.ok (int y) : Except Fault Value) = .ok (int z) ↔ y = z := by
    simp
  refine ⟨⟨null_add_int x, int_add_null x, int_sub_null x, null_sub_int x⟩, ⟨?_, ?_⟩,
    ?_, ?_, ?_, ?_⟩
  · rw [null_mul_int, mul, Int64.zero_mul]
  · rw [int_mul_null, mul, Int64.mul_zero]
  · rw [null_add_int, add, hresult, Int64.zero_add, throughFloat_eq_iff]
  · rw [int_add_null, add, hresult, Int64.add_zero, throughFloat_eq_iff]
  · rw [int_sub_null, sub, hresult, Int64.sub_zero, throughFloat_eq_iff]
  · rw [null_sub_int, sub, hresult, Int64.zero_sub, throughFloat_neg_eq_iff]

/-- The first integer that is not a float is changed by a null that is added, and the lowest one by
being taken from a null. -/
theorem null_changes_int :
    ¬(null.add (int 9007199254740993) = .ok (int 9007199254740993)) ∧
      ¬(null.sub (int Int64.minValue) = (int 0).sub (int Int64.minValue)) := by
  decide +kernel

end Value

end ProcEngine
