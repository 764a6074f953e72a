import Mathlib
import ProcEngine.Number
import ProcEngine.Proofs.Number.Binary64
/-!
# Floats with the value of an integer

Widening an integer gives a float that stands for the rounded integer, and narrowing gives the
integer that a float stands for, brought into range.
-/

open Float.Model Float.Model.UnpackedFloat

namespace ProcEngine

/-- The float stands for the integer. -/
def Carries (x : Float) (n : Int) : Prop := Stands x.toModel.unpack n

theorem Stands.carries {u : UnpackedFloat} {n : Int} (hu : Stands u n) :
    Carries (.ofModel (.pack u)) n := by
  rw [Carries, hu.unpack_pack]
  exact hu

theorem carries_zero : Carries 0 0 := by
  have : (0 : Float) = Float.ofModel (.pack (.zero .positive)) := by decide +kernel
  rw [this]
  exact Stands.carries (by simpa using Stands.zero .positive)

namespace Carries

variable {x y z : Float} {a b n : Int}

theorem lt_iff (hx : Carries x a) (hy : Carries y b) : x < y ↔ a < b := by
  change x.lt y = true ↔ a < b
  simp only [Float.lt, decide_eq_true_eq]
  change UnpackedFloat.lt _ _ = true ↔ a < b
  rw [UnpackedFloat.lt, hx.compare_eq hy, beq_iff_eq, Option.some_inj,
    compare_lt_iff_lt, Int.cast_lt]

theorem beq_iff (hx : Carries x a) (hy : Carries y b) : x == y ↔ a = b := by
  change UnpackedFloat.beq _ _ = true ↔ a = b
  rw [UnpackedFloat.beq, hx.compare_eq hy, beq_iff_eq, Option.some_inj, compare_eq_iff_eq,
    Int.cast_inj]

theorem neg (hx : Carries x n) : Carries (-x) (-n) :=
  Stands.carries (by simpa using Stands.neg hx)

/-- What an operation makes of both zeros it makes of any float that stands for zero. -/
theorem of_zero (hz : Carries z 0) (f : UnpackedFloat → UnpackedFloat)
    (hf : ∀ s, Stands (f (.zero s)) n) :
    Carries (.ofModel (.pack (f z.toModel.unpack))) n := by
  obtain ⟨s, hs⟩ := Stands.eq_zero_of_zero (by simpa [Carries] using hz)
  rw [hs]
  exact (hf s).carries

theorem zero_add (hz : Carries z 0) (hx : Carries x n) : Carries (z + x) n :=
  hz.of_zero (UnpackedFloat.add .binary64 · x.toModel.unpack) fun s => Stands.zero_add _ s hx

theorem add_zero (hx : Carries x n) (hz : Carries z 0) : Carries (x + z) n :=
  hz.of_zero (UnpackedFloat.add .binary64 x.toModel.unpack) fun s => Stands.add_zero _ s hx

theorem zero_sub (hz : Carries z 0) (hx : Carries x n) : Carries (z - x) (-n) :=
  hz.of_zero (UnpackedFloat.sub .binary64 · x.toModel.unpack) fun s => by
    simpa using Stands.zero_sub _ s hx

theorem sub_zero (hx : Carries x n) (hz : Carries z 0) : Carries (x - z) n :=
  hz.of_zero (UnpackedFloat.sub .binary64 x.toModel.unpack) fun s => Stands.sub_zero _ s hx

theorem zero_mul (hz : Carries z 0) (hx : Carries x n) : Carries (z * x) 0 :=
  hz.of_zero (UnpackedFloat.mul .binary64 · x.toModel.unpack) fun s => by
    simpa using Stands.zero_mul _ s hx

theorem mul_zero (hx : Carries x n) (hz : Carries z 0) : Carries (x * z) 0 :=
  hz.of_zero (UnpackedFloat.mul .binary64 x.toModel.unpack) fun s => by
    simpa using Stands.mul_zero _ s hx

theorem toNat_toUInt64 (hx : Carries x n) (hn : n < 2 ^ 64) : x.toUInt64.toNat = n.toNat := by
  change (UInt64.ofNatClamp (UnpackedFloat.toInt _ _ _).toNat).toNat = _
  rw [Stands.toInt_eq hx, UInt64.toNat_ofNatClamp_of_lt]
  change n.toNat < 2 ^ 64
  omega

theorem toUInt64_lt_iff (hx : Carries x n) (hn : n < 2 ^ 64) :
    x.toUInt64 < 0x8000000000000000 ↔ n < 2 ^ 63 := by
  rw [UInt64.lt_iff_toNat_lt, hx.toNat_toUInt64 hn]
  change n.toNat < 2 ^ 63 ↔ _
  omega

/-- Narrowing brings the integer that a float stands for into range. -/
theorem narrow_eq (hx : Carries x n) (hlow : -2 ^ 63 ≤ n) (hhigh : n ≤ 2 ^ 63) :
    narrow x = Int64.ofInt (min n (2 ^ 63 - 1)) := by
  have hsign : x < 0 ↔ n < 0 := hx.lt_iff carries_zero
  unfold narrow
  split
  · have hneg := hsign.1 ‹_›
    have hrange : -n < 2 ^ 64 := by omega
    simp only [hx.neg.toUInt64_lt_iff hrange, hx.neg.toNat_toUInt64 hrange]
    rw [min_eq_left (by omega)]
    split
    · congr 1
      omega
    · obtain rfl : n = -2 ^ 63 := by omega
      decide
  · have hpos := (not_congr hsign).1 ‹_›
    have hrange : n < 2 ^ 64 := by omega
    simp only [hx.toUInt64_lt_iff hrange, hx.toNat_toUInt64 hrange]
    split
    · congr 1
      omega
    · obtain rfl : n = 2 ^ 63 := by omega
      decide

end Carries

theorem carries_toFloat (n : UInt64) : Carries n.toFloat (roundNat n.toNat) := by
  have hlog : n.toNat.log2 ≤ 1022 := by
    rcases Nat.eq_zero_or_pos n.toNat with hn | hn
    · simp [hn]
    · have := (Nat.log2_lt hn.ne').2 n.toNat_lt
      omega
  exact Stands.carries (by exact_mod_cast stands_ofNat hlog)

/-- Widening gives the float nearest to an integer. -/
theorem carries_widen (i : Int64) : Carries (widen i) (rounded i.toInt) := by
  have habs : (UInt64.ofNat i.toInt.natAbs).toNat = i.toInt.natAbs := by
    have := i.le_toInt
    have := i.toInt_lt
    rw [UInt64.toNat_ofNat_of_lt']
    change _ < 2 ^ 64
    omega
  have hfloat := carries_toFloat (UInt64.ofNat i.toInt.natAbs)
  rw [habs] at hfloat
  have hsign : i < 0 ↔ i.toInt < 0 := Int64.lt_iff_toInt_lt
  unfold widen
  split
  · have hneg : rounded i.toInt = -(roundNat i.toInt.natAbs : Int) := by
      rw [rounded, Int.sign_eq_neg_one_of_neg (hsign.1 ‹_›), neg_one_mul]
    rw [hneg]
    exact hfloat.neg
  · have hpos : rounded i.toInt = roundNat i.toInt.natAbs := by
      rw [← rounded_natCast, Int.natAbs_of_nonneg (not_lt.1 ((not_congr hsign).1 ‹_›))]
    rw [hpos]
    exact hfloat

/-- What an integer is rounded to is in range but for one more at the upper end. -/
theorem rounded_toInt_bounds (i : Int64) : -2 ^ 63 ≤ rounded i.toInt ∧
    rounded i.toInt ≤ 2 ^ 63 := by
  have hpower : rounded (2 ^ 63) = 2 ^ 63 := by decide
  have hlow := rounded_mono i.le_toInt
  have hhigh := rounded_mono i.toInt_lt.le
  rw [rounded_neg] at hlow
  rw [hpower] at hlow hhigh
  exact ⟨hlow, hhigh⟩

end ProcEngine
