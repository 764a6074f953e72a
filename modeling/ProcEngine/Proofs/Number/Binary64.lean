import Mathlib
import ProcEngine.Proofs.Number.Rounding
/-!
# Floats and the numbers that they stand for

A float that is neither next to zero nor infinite has a mantissa of all its 53 places, so that two
of them compare as the numbers that they stand for. Rounding a mantissa of more places gives such a
float, and it stands for the rounded number.
-/

open Float.Model Float.Model.UnpackedFloat

namespace ProcEngine

/-- A float that is zero, or has a mantissa of all 53 places, and the number that it stands for. -/
inductive Stands : UnpackedFloat → ℚ → Prop
  | zero (s : Sign) : Stands (.zero s) 0
  | finite {m : Nat} {e : Int} (s : Sign) (hpos : 0 < m) (full : m.log2 = 52) (low : -1074 ≤ e)
      (high : e ≤ 971) : Stands (.finite s m e hpos) (s.apply m * 2 ^ e)

/-! ### Order -/

theorem scaled_lt {m₁ m₂ : Nat} {e₁ e₂ : Int} (h₁ : m₁.log2 = 52) (h₂ : m₂.log2 = 52)
    (h : e₁ < e₂) :
    (m₁ : ℚ) * 2 ^ e₁ < m₂ * 2 ^ e₂ := by
  have hm₁ : m₁ < 2 ^ (52 + 1) := h₁ ▸ Nat.lt_log2_self (n := m₁)
  have hm₂ : 2 ^ 52 ≤ m₂ := h₂ ▸ Nat.log2_self_le (fun h => by simp [h] at h₂)
  calc (m₁ : ℚ) * 2 ^ e₁ < 2 ^ 53 * 2 ^ e₁ := by gcongr; exact_mod_cast hm₁
    _ = 2 ^ 52 * 2 ^ (e₁ + 1) := by rw [zpow_add_one₀ two_ne_zero]; ring
    _ ≤ m₂ * 2 ^ e₂ := by
      gcongr
      · exact_mod_cast hm₂
      · exact one_le_two
      · exact h

theorem compare_scaled {m₁ m₂ : Nat} {e₁ e₂ : Int} (h₁ : m₁.log2 = 52) (h₂ : m₂.log2 = 52) :
    (compare e₁ e₂).then (compare m₁ m₂) = compare ((m₁ : ℚ) * 2 ^ e₁) (m₂ * 2 ^ e₂) := by
  rcases lt_trichotomy e₁ e₂ with hlt | rfl | hgt
  · rw [Int.compare_eq_lt.2 hlt, compare_lt_iff_lt.2 (scaled_lt h₁ h₂ hlt)]
    rfl
  · have hpos : (0 : ℚ) < 2 ^ e₁ := by positivity
    rcases lt_trichotomy m₁ m₂ with hm | rfl | hm
    · have h : (m₁ : ℚ) * 2 ^ e₁ < m₂ * 2 ^ e₁ := by gcongr
      rw [Nat.compare_eq_lt.2 hm, compare_lt_iff_lt.2 h]
      simp
    · simp
    · have h : (m₂ : ℚ) * 2 ^ e₁ < m₁ * 2 ^ e₁ := by gcongr
      rw [Nat.compare_eq_gt.2 hm, compare_gt_iff_gt.2 h]
      simp
  · rw [Int.compare_eq_gt.2 hgt, compare_gt_iff_gt.2 (scaled_lt h₂ h₁ hgt)]
    rfl

theorem compare_neg_neg (x y : ℚ) : compare (-x) (-y) = (compare x y).swap := by
  rcases lt_trichotomy x y with h | rfl | h
  · rw [compare_lt_iff_lt.2 h, compare_gt_iff_gt.2 (neg_lt_neg h)]
    rfl
  · simp
  · rw [compare_gt_iff_gt.2 h, compare_lt_iff_lt.2 (neg_lt_neg h)]
    rfl

namespace Stands

variable {u v : UnpackedFloat} {p q : ℚ}

/-- Floats compare as the numbers that they stand for. -/
theorem compare_eq (hu : Stands u p) (hv : Stands v q) : u.compare v = some (compare p q) := by
  have hscaled (m : Nat) (e : Int) (hm : 0 < m) : (0 : ℚ) < m * 2 ^ e := by positivity
  cases hu with
  | zero s =>
    cases hv with
    | zero t => simp [UnpackedFloat.compare]
    | @finite m e t hpos full low high =>
      have := hscaled m e hpos
      cases t with
      | positive => simp [UnpackedFloat.compare, Sign.apply, compare_lt_iff_lt.2 this]
      | negative =>
        simp [UnpackedFloat.compare, Sign.apply, compare_gt_iff_gt.2 (neg_lt_zero.2 this)]
  | @finite m e s hpos full low high =>
    have hm := hscaled m e hpos
    cases hv with
    | zero t =>
      cases s with
      | positive => simp [UnpackedFloat.compare, Sign.apply, compare_gt_iff_gt.2 hm]
      | negative => simp [UnpackedFloat.compare, Sign.apply, compare_lt_iff_lt.2 (neg_lt_zero.2 hm)]
    | @finite m' e' t hpos' full' low' high' =>
      have hm' := hscaled m' e' hpos'
      cases s <;> cases t <;> simp only [UnpackedFloat.compare, Sign.apply, Option.some_inj]
      · rw [compare_scaled full full', ← compare_neg_neg]
        simp
      · exact (compare_lt_iff_lt.2 (by push_cast; linarith)).symm
      · exact (compare_gt_iff_gt.2 (by push_cast; linarith)).symm
      · rw [compare_scaled full full']
        simp

theorem eq_zero_of_zero (hu : Stands u 0) : ∃ s, u = .zero s := by
  generalize hq : (0 : ℚ) = q at hu
  cases hu with
  | zero s => exact ⟨s, rfl⟩
  | @finite m e s hpos full low high =>
    have hm : (0 : ℚ) < m * 2 ^ e := by positivity
    cases s <;> simp only [Sign.apply, Int.cast_neg, Int.cast_natCast] at hq <;> linarith

/-! ### Signs and zeros -/

theorem neg (hu : Stands u q) : Stands u.neg (-q) := by
  cases hu with
  | zero s =>
    rw [neg_zero]
    exact zero (-s)
  | finite s hpos full low high =>
    have := finite (-s) hpos full low high
    cases s <;> simpa [Sign.apply, UnpackedFloat.neg] using this

variable (spec : Format) (s : Sign)

theorem zero_add (hu : Stands u q) : Stands (UnpackedFloat.add spec (.zero s) u) q := by
  cases hu with
  | zero t => cases s <;> cases t <;> exact zero _
  | finite t hpos full low high => exact finite t hpos full low high

theorem add_zero (hu : Stands u q) : Stands (UnpackedFloat.add spec u (.zero s)) q := by
  cases hu with
  | zero t => cases s <;> cases t <;> exact zero _
  | finite t hpos full low high => exact finite t hpos full low high

theorem sub_zero (hu : Stands u q) : Stands (UnpackedFloat.sub spec u (.zero s)) q := by
  cases hu with
  | zero t => cases s <;> cases t <;> exact zero _
  | finite t hpos full low high => exact finite t hpos full low high

theorem zero_sub (hu : Stands u q) : Stands (UnpackedFloat.sub spec (.zero s) u) (-q) := by
  have hneg := hu.neg
  cases hu with
  | zero t =>
    rw [neg_zero]
    cases s <;> cases t <;> exact zero _
  | finite t hpos full low high => exact hneg

theorem zero_mul (hu : Stands u q) : Stands (UnpackedFloat.mul spec (.zero s) u) 0 := by
  cases hu with
  | zero t => exact zero _
  | finite t hpos full low high => exact zero _

theorem mul_zero (hu : Stands u q) : Stands (UnpackedFloat.mul spec u (.zero s)) 0 := by
  cases hu with
  | zero t => exact zero _
  | finite t hpos full low high => exact zero _

end Stands

/-! ### Packing -/

theorem unpack_pack_finite {m : Nat} {e : Int} (s : Sign) (hpos : 0 < m) (full : m.log2 = 52)
    (low : -1074 ≤ e) (high : e ≤ 971) :
    UnpackedFloat.unpack Format.binary64 (UnpackedFloat.pack Format.binary64 (.finite s m e hpos)) =
      .finite s m e hpos := by
  have hbiased : ((e + 1075).toNat : Int) = e + 1075 := Int.toNat_of_nonneg (by omega)
  have hrange : 0 < (e + 1075).toNat ∧ (e + 1075).toNat < 2047 := by omega
  have hplaces : 2 ^ 52 ≤ m ∧ m < 2 ^ 53 := (Nat.log2_eq_iff hpos.ne').1 full
  have hexp : (BitVec.ofNat 11 (e + 1075).toNat).toNat = (e + 1075).toNat := by
    rw [BitVec.toNat_ofNat]
    exact Nat.mod_eq_of_lt (by omega)
  have hmantissa : (1#1 ++ BitVec.ofNat 52 m).toNat = m := by
    rw [BitVec.toNat_append, ← Nat.shiftLeft_add_eq_or_of_lt (BitVec.isLt _), BitVec.toNat_ofNat]
    simp only [BitVec.toNat_ofNat, Nat.shiftLeft_eq]
    omega
  have hbias : (Format.binary64.exponentBias : Int) = 1023 := by decide
  have hpack : UnpackedFloat.pack Format.binary64 (.finite s m e hpos) =
      packComponents Format.binary64 s (BitVec.ofNat 11 (e + 1075).toNat) (BitVec.ofNat 52 m) := by
    have hsum : e + (Format.binary64.exponentBias : Int) + (52 : Nat) = e + 1075 := by omega
    simp only [UnpackedFloat.pack, hsum, Format.mantissaBits]
    rw [if_neg (by omega), if_pos (by omega)]
  have hneither : BitVec.ofNat 11 (e + 1075).toNat ≠ -1#11 ∧
      BitVec.ofNat 11 (e + 1075).toNat ≠ 0#11 := by
    simp only [ne_eq, ← BitVec.toNat_inj, hexp]
    constructor <;> simp <;> omega
  simp only [hpack, UnpackedFloat.unpack, unpackMantissa_packComponents,
    unpackExponent_packComponents,
    unpackSign_packComponents, Sign.ofBitVec_toBitVec, hneither, if_false, hexp, hmantissa]
  congr 1
  omega

theorem Stands.unpack_pack {u : UnpackedFloat} {q : ℚ} (hu : Stands u q) :
    (Float.Model.pack u).unpack = u := by
  cases hu with
  | zero s => exact unpack_packedZero
  | finite s hpos full low high => exact unpack_pack_finite s hpos full low high

/-! ### Rounding -/

/-- What is shifted out is kept as the half and the rest. -/
theorem shiftRight_succ (m k : Nat) :
    (⟨m, false, false⟩ : ExtendedMantissa) >>> (k + 1) =
      ⟨m / 2 ^ (k + 1), m / 2 ^ k % 2 != 0, m % 2 ^ k != 0⟩ := by
  induction k with
  | zero => simp [HShiftRight.hShiftRight, Nat.repeat, ExtendedMantissa.shiftRightOne, Nat.mod_one]
  | succ k ih =>
    change ((⟨m, false, false⟩ : ExtendedMantissa) >>> (k + 1)).shiftRightOne = _
    rw [ih, ExtendedMantissa.shiftRightOne]
    congr 1
    · rw [Nat.div_div_eq_div_mul, ← Nat.pow_succ]
    · rw [Nat.mod_pow_succ]
      rcases Nat.mod_two_eq_zero_or_one (m / 2 ^ k) with h | h <;> simp [h]

theorem roundedMantissa_shiftRight (m k : Nat) :
    ((⟨m, false, false⟩ : ExtendedMantissa) >>> k).roundedMantissa = unitsIn (2 ^ k) m := by
  cases k with
  | zero =>
    simp [HShiftRight.hShiftRight, Nat.repeat, unitsIn_one, ExtendedMantissa.roundedMantissa,
      ExtendedMantissa.accuracy, Accuracy.roundToNearestEven]
  | succ k =>
    have hpow := Nat.two_pow_pos k
    rw [shiftRight_succ, unitsIn, Nat.mod_pow_succ, ExtendedMantissa.roundedMantissa]
    rcases Nat.mod_two_eq_zero_or_one (m / 2 ^ k) with hbit | hbit
    · have hhalf : 2 * (m % 2 ^ k) < 2 ^ (k + 1) := by
        have := Nat.mod_lt m hpow
        omega
      cases m % 2 ^ k != 0 <;>
        simp [hbit, hhalf, ExtendedMantissa.accuracy, Accuracy.roundToNearestEven]
    · rw [hbit, Nat.mul_one, if_neg (by omega)]
      rcases Nat.eq_zero_or_pos (m % 2 ^ k) with hrest | hrest
      · rw [if_neg (by omega)]
        simp [hrest, ExtendedMantissa.accuracy, Accuracy.roundToNearestEven]
      · rw [if_pos (by omega)]
        simp [bne_iff_ne.2 hrest.ne', ExtendedMantissa.accuracy, Accuracy.roundToNearestEven]

theorem shiftToTargetExponent_eq {m : Nat} {e : Int} (hlog : 52 ≤ m.log2) (low : -1074 ≤ e) :
    shiftToTargetExponent Format.binary64 m e .exact =
      ((⟨m, false, false⟩ : ExtendedMantissa) >>> (m.log2 - 52), e + (m.log2 - 52 : Nat)) := by
  have hshift : Format.binary64.targetExponent (totalExponent m e) - e = (m.log2 - 52 : Nat) := by
    simp only [Format.targetExponent, totalExponent, Format.mantissaBits, Format.minExponent]
    omega
  simp only [shiftToTargetExponent, shiftToExponent, hshift, Int.toNat_natCast]
  rfl

theorem unitsIn_spacing_bounds {m : Nat} (hlog : 52 ≤ m.log2) :
    2 ^ 52 ≤ unitsIn (spacing m) m ∧ unitsIn (spacing m) m ≤ 2 ^ 53 := by
  have hm : m ≠ 0 := fun h => by simp [h] at hlog
  have hpow (j : Nat) : 2 ^ (52 + j) * spacing m = 2 ^ (m.log2 + j) := by
    rw [spacing, ← Nat.pow_add]
    congr 1
    omega
  have hlow := two_pow_log2_le_roundNat hm
  have hhigh := roundNat_le_two_pow m
  rw [roundNat, ← Nat.add_zero m.log2, ← hpow 0] at hlow
  rw [roundNat, ← hpow 1] at hhigh
  exact ⟨Nat.le_of_mul_le_mul_right hlow (spacing_pos m),
    Nat.le_of_mul_le_mul_right hhigh (spacing_pos m)⟩

/-- A rounded mantissa may have come to `2 ^ 53` and then moves by one place, without loss. -/
theorem stands_carried {r : Nat} {e : Int} (s : Sign) (hfull : 2 ^ 52 ≤ r) (hcarry : r ≤ 2 ^ 53)
    (low : -1074 ≤ e) (high : e ≤ 970) :
    Stands (if h : (shiftToTargetExponent Format.binary64 r e .exact).1.mantissa = 0 then .zero s
      else .finite s (shiftToTargetExponent Format.binary64 r e .exact).1.mantissa
        (shiftToTargetExponent Format.binary64 r e .exact).2 (Nat.pos_of_ne_zero h))
      (s.apply r * 2 ^ e) := by
  rcases hcarry.lt_or_eq with hlt | rfl
  · have hr : r.log2 = 52 := (Nat.log2_eq_iff (by omega)).2 ⟨hfull, hlt⟩
    have hshift : shiftToTargetExponent Format.binary64 r e .exact = (⟨r, false, false⟩, e) := by
      simp [shiftToTargetExponent_eq hr.ge low, hr, HShiftRight.hShiftRight, Nat.repeat]
    simp only [hshift]
    rw [dif_neg (by omega)]
    exact .finite s _ hr low (by omega)
  · have hr : Nat.log2 (2 ^ 53) = 53 := Nat.log2_two_pow
    have hshift : shiftToTargetExponent Format.binary64 (2 ^ 53) e .exact =
        (⟨2 ^ 52, false, false⟩, e + 1) := by
      rw [shiftToTargetExponent_eq (by omega) low, hr]
      rfl
    have hvalue : (s.apply (2 ^ 53 : Nat) : ℚ) * 2 ^ e = s.apply (2 ^ 52 : Nat) * 2 ^ (e + 1) := by
      rw [zpow_add_one₀ two_ne_zero]
      cases s <;> simp only [Sign.apply] <;> push_cast <;> ring
    simp only [hshift, hvalue]
    exact .finite s _ Nat.log2_two_pow (by omega) (by omega)

/-- Rounding a mantissa of at least 53 places. -/
theorem stands_roundWithAccuracy {m : Nat} {e : Int} (s : Sign) (hlog : 52 ≤ m.log2)
    (low : -1074 ≤ e) (high : e + m.log2 ≤ 1022) :
    Stands (roundWithAccuracy Format.binary64 s m e .exact) (s.apply (roundNat m) * 2 ^ e) := by
  obtain ⟨hfull, hcarry⟩ := unitsIn_spacing_bounds hlog
  have hround := roundedMantissa_shiftRight m (m.log2 - 52)
  have hvalue : (s.apply (roundNat m) : ℚ) * 2 ^ e =
      s.apply (unitsIn (spacing m) m) * 2 ^ (e + (m.log2 - 52 : Nat)) := by
    rw [roundNat, spacing, zpow_add₀ two_ne_zero, zpow_natCast]
    cases s <;> simp only [Sign.apply] <;> push_cast <;> ring
  rw [spacing, ← hround] at hvalue hfull hcarry
  rw [hvalue, roundWithAccuracy, shiftToTargetExponent_eq hlog low]
  exact stands_carried s hfull hcarry (by omega) (by omega)

theorem log2_mul_two_pow {n : Nat} (hn : n ≠ 0) (k : Nat) : (n * 2 ^ k).log2 = n.log2 + k := by
  refine (Nat.log2_eq_iff (Nat.mul_ne_zero hn (Nat.two_pow_pos k).ne')).2 ⟨?_, ?_⟩
  · rw [Nat.pow_add]
    exact Nat.mul_le_mul_right _ (Nat.log2_self_le hn)
  · rw [Nat.add_right_comm, Nat.pow_add]
    exact Nat.mul_lt_mul_of_pos_right Nat.lt_log2_self (Nat.two_pow_pos k)

/-- Moving a number of fewer than 53 places up to the left does not change what it is rounded to. -/
theorem roundNat_shift (n : Nat) : roundNat (n * 2 ^ (52 - n.log2)) =
    roundNat n * 2 ^ (52 - n.log2) := by
  rcases le_or_gt 52 n.log2 with hlog | hlog
  · rw [Nat.sub_eq_zero_of_le hlog]
    simp
  · have hn : n < 2 ^ (n.log2 + 1) := Nat.lt_log2_self
    have hshifted : n * 2 ^ (52 - n.log2) ≤ 2 ^ 53 := by
      calc n * 2 ^ (52 - n.log2) ≤ 2 ^ (n.log2 + 1) * 2 ^ (52 - n.log2) :=
        Nat.mul_le_mul_right _ hn.le
        _ = 2 ^ 53 := by rw [← Nat.pow_add]; congr 1; omega
    have hsmall : n ≤ 2 ^ 53 := hn.le.trans (Nat.pow_le_pow_right two_pos (by omega))
    rw [roundNat_of_le hshifted, roundNat_of_le hsmall]

theorem stands_ofNat {n : Nat} (hlog : n.log2 ≤ 1022) :
    Stands (UnpackedFloat.ofNat Format.binary64 n) (roundNat n) := by
  rcases Nat.eq_zero_or_pos n with rfl | hn
  · rw [roundNat_zero, Nat.cast_zero]
    exact .zero .positive
  have hgt : compare (n : Int) 0 = .gt := Int.compare_eq_gt.2 (by omega)
  have hshift : (0 - Format.binary64.targetExponent (totalExponent n 0)).toNat = 52 - n.log2 := by
    simp only [Format.targetExponent, totalExponent, Format.mantissaBits, Format.minExponent]
    omega
  have hshifted := log2_mul_two_pow hn.ne' (52 - n.log2)
  have hvalue : (roundNat n : ℚ) =
      (Sign.positive.apply (roundNat (n * 2 ^ (52 - n.log2)))) *
        2 ^ (0 - (52 - n.log2 : Nat) : Int) := by
    rw [roundNat_shift, zero_sub, zpow_neg, zpow_natCast]
    simp [Sign.apply]
  simp only [UnpackedFloat.ofNat, UnpackedFloat.ofInt, UnpackedFloat.normalize, hgt,
    Int.toNat_natCast, UnpackedFloat.round, decreaseExponent, hshift, Nat.shiftLeft_eq]
  rw [hvalue]
  exact stands_roundWithAccuracy .positive (by omega) (by omega) (by omega)

/-! ### Truncating -/

theorem mantissa_shiftRight (em : ExtendedMantissa) (k : Nat) :
    (em >>> k).mantissa = em.mantissa / 2 ^ k := by
  induction k with
  | zero => simp [HShiftRight.hShiftRight, Nat.repeat]
  | succ k ih =>
    change (em >>> k).mantissa / 2 = _
    rw [ih, Nat.div_div_eq_div_mul, ← Nat.pow_succ]

/-- An integer is not changed by dropping its fraction. -/
theorem roundToInt_eq {s : Sign} {m : Nat} {e n : Int} (h : (s.apply m : ℚ) * 2 ^ e = n) :
    roundToInt s m e = n := by
  rcases le_total 0 e with he | he
  · obtain ⟨k, rfl⟩ := Int.eq_ofNat_of_zero_le he
    have hn : s.apply m * 2 ^ k = n := by
      rw [zpow_natCast] at h
      exact_mod_cast h
    have hshift : (0 - ((k : Int) - ((k : Int).toNat : Nat))).toNat = 0 := by omega
    simp only [roundToInt, decreaseExponent, shiftToExponent, mantissa_shiftRight,
      Int.sub_zero, hshift]
    rw [← hn]
    cases s <;> simp [Sign.apply, ExtendedMantissa.ofMantissaAndAccuracy, Nat.shiftLeft_eq]
  · obtain ⟨k, hk⟩ := Int.eq_ofNat_of_zero_le (Int.neg_nonneg_of_nonpos he)
    obtain rfl : e = -k := by omega
    have hn : s.apply m = n * 2 ^ k := by
      rw [zpow_neg, zpow_natCast, ← div_eq_mul_inv, div_eq_iff (by positivity)] at h
      exact_mod_cast h
    have hnone : (-(k : Int) - 0).toNat = 0 := by omega
    have hshift : (0 - (-(k : Int) - (0 : Nat))).toNat = k := by omega
    simp only [roundToInt, decreaseExponent, shiftToExponent, mantissa_shiftRight, hnone, hshift,
      Nat.shiftLeft_zero, ExtendedMantissa.ofMantissaAndAccuracy]
    have hpow : (2 ^ k : Int) ≠ 0 := by positivity
    cases s with
    | positive =>
      simp only [Sign.apply] at hn ⊢
      push_cast
      rw [hn, Int.mul_ediv_cancel _ hpow]
    | negative =>
      simp only [Sign.apply] at hn ⊢
      push_cast
      rw [show (m : Int) = -n * 2 ^ k by linarith, Int.mul_ediv_cancel _ hpow, neg_neg]

theorem Stands.toInt_eq {u : UnpackedFloat} {n : Int} (hu : Stands u n) (low high : Int) :
    u.toInt low high = n := by
  generalize hq : (n : ℚ) = q at hu
  cases hu with
  | zero s => exact_mod_cast hq.symm
  | finite s hpos full low high => exact roundToInt_eq hq.symm

end ProcEngine
