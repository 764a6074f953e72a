import Mathlib
import ProcEngine.Proofs.Number.Widening
/-!
# Floats that stay in range

A bound on the binary places of a float is kept by rounding but for one place, and a quotient has as
many places less as the last place of what it is divided by is worth. A float that is finite can
therefore only become infinite where it grows: a negation stays finite, and a product that has not
become infinite is finite.
-/

open Float.Model Float.Model.UnpackedFloat

namespace ProcEngine

theorem Stands.isFinite {u : UnpackedFloat} {q : ℚ} (h : Stands u q) : u.isFinite = true := by
  cases h <;> rfl

theorem Carries.isFinite {x : Float} {n : Int} (h : Carries x n) : x.isFinite = true :=
  Stands.isFinite h

theorem zero_or_finite {u : UnpackedFloat} (h : u.isFinite = true) :
    (∃ s, u = .zero s) ∨ ∃ s m e hpos, u = .finite s m e hpos := by
  cases u with
  | zero s => exact .inl ⟨s, rfl⟩
  | finite s m e hpos => exact .inr ⟨s, m, e, hpos, rfl⟩
  | infinity s => cases h
  | notANumber => cases h

/-- The float is finite, and its first place is worth `2 ^ k` at most. -/
def Below (k : Int) : UnpackedFloat → Prop
  | .zero _ => True
  | .finite _ m e _ => m.log2 + e ≤ k
  | .infinity _ | .notANumber => False

/-- The float is finite and positive, and its last place is worth `2 ^ e` at least. -/
def PlacesFrom (e : Int) : UnpackedFloat → Bool
  | .finite .positive _ f _ => e ≤ f
  | _ => false

section

variable {u : UnpackedFloat} {k l e : Int} {q : ℚ}

theorem Below.mono (h : Below k u) (hle : k ≤ l) : Below l u := by
  cases u with
  | zero s => trivial
  | finite s m e hpos => exact Int.le_trans h hle
  | infinity s => cases h
  | notANumber => cases h

theorem Below.isFinite (h : Below k u) : u.isFinite = true := by
  cases u with
  | zero s => rfl
  | finite s m e hpos => rfl
  | infinity s => cases h
  | notANumber => cases h

theorem exists_of_placesFrom (h : PlacesFrom e u) : ∃ m f hpos, u = .finite .positive m f hpos ∧
    e ≤ f := by
  cases u with
  | zero s => cases h
  | infinity s => cases h
  | notANumber => cases h
  | finite s m f hpos =>
    cases s with
    | negative => cases h
    | positive => exact ⟨m, f, hpos, rfl, by simpa [PlacesFrom] using h⟩

theorem Stands.below (hu : Stands u q) (hpos : 0 ≤ q) (hq : q ≤ 2 ^ k) : Below k u := by
  cases hu with
  | zero s => trivial
  | @finite m e s hm full low high =>
    have hvalue : (0 : ℚ) < m * 2 ^ e := by positivity
    cases s with
    | negative =>
      simp only [Sign.apply, Int.cast_neg, Int.cast_natCast] at hpos
      linarith
    | positive =>
      have hmantissa : (2 : ℚ) ^ (52 : Int) ≤ m := by
        have : 2 ^ 52 ≤ m := full ▸ Nat.log2_self_le hm.ne'
        exact_mod_cast this
      have hpower : (2 : ℚ) ^ (52 + e) ≤ 2 ^ k := by
        calc (2 : ℚ) ^ (52 + e) = 2 ^ (52 : Int) * 2 ^ e := zpow_add₀ two_ne_zero 52 e
          _ ≤ m * 2 ^ e := by gcongr
          _ ≤ 2 ^ k := hq
      have := (zpow_le_zpow_iff_right₀ (one_lt_two (α := ℚ))).1 hpower
      simp only [Below, full]
      omega

theorem Stands.placesFrom (hu : Stands u q) (hq : 1 ≤ q) : PlacesFrom (-52) u := by
  cases hu with
  | zero s => norm_num at hq
  | @finite m e s hm full low high =>
    have hvalue : (0 : ℚ) < m * 2 ^ e := by positivity
    cases s with
    | negative =>
      simp only [Sign.apply, Int.cast_neg, Int.cast_natCast] at hq
      linarith
    | positive =>
      have hmantissa : (m : ℚ) < 2 ^ (53 : Int) := by
        have : m < 2 ^ (52 + 1) := full ▸ Nat.lt_log2_self (n := m)
        exact_mod_cast this
      have hpower : (2 : ℚ) ^ (0 : Int) < 2 ^ (53 + e) := by
        calc (2 : ℚ) ^ (0 : Int) = 1 := zpow_zero 2
          _ ≤ m * 2 ^ e := hq
          _ < 2 ^ (53 : Int) * 2 ^ e := by gcongr
          _ = 2 ^ (53 + e) := (zpow_add₀ two_ne_zero 53 e).symm
      have := (zpow_lt_zpow_iff_right₀ (one_lt_two (α := ℚ))).1 hpower
      simp only [PlacesFrom, decide_eq_true_eq]
      omega

end

theorem below_toFloat (n : UInt64) : Below 64 n.toFloat.toModel.unpack := by
  apply Stands.below (carries_toFloat n)
  · positivity
  · have hlog : n.toNat.log2 < 64 := by
      rcases Nat.eq_zero_or_pos n.toNat with hn | hn
      · simp [hn]
      · exact (Nat.log2_lt hn.ne').2 n.toNat_lt
    have : roundNat n.toNat ≤ 2 ^ 64 :=
      (roundNat_le_two_pow _).trans (Nat.pow_le_pow_right two_pos hlog)
    exact_mod_cast this

/-! ### Rounding -/

theorem log2_le_log2 {m n : Nat} (h : m ≤ n) : m.log2 ≤ n.log2 := by
  rcases Nat.eq_zero_or_pos m with rfl | hm
  · simp
  · rw [Nat.le_log2 (by omega)]
    exact (Nat.log2_self_le (by omega)).trans h

theorem log2_succ_le (m : Nat) : (m + 1).log2 ≤ m.log2 + 1 := by
  rcases Nat.eq_zero_or_pos m with rfl | hm
  · decide
  · have hlt : m < 2 ^ (m.log2 + 1) := Nat.lt_log2_self
    rw [← Nat.lt_succ_iff, Nat.log2_lt (by omega)]
    calc m + 1 < 2 ^ (m.log2 + 1) + 2 ^ (m.log2 + 1) := by omega
      _ = 2 ^ (m.log2 + 1 + 1) := by rw [Nat.pow_succ 2 (m.log2 + 1)]; omega

theorem log2_div_two_pow_le {m s : Nat} (h : m / 2 ^ s ≠ 0) : (m / 2 ^ s).log2 + s ≤ m.log2 := by
  have hm : m ≠ 0 := by
    rintro rfl
    simp at h
  rw [Nat.le_log2 hm, Nat.pow_add]
  calc 2 ^ (m / 2 ^ s).log2 * 2 ^ s ≤ m / 2 ^ s * 2 ^ s :=
    Nat.mul_le_mul_right _ (Nat.log2_self_le h)
    _ ≤ m := Nat.div_mul_le_self m _

theorem roundedMantissa_le (em : ExtendedMantissa) : em.roundedMantissa ≤ em.mantissa + 1 := by
  obtain ⟨m, roundBit, stickyBit⟩ := em
  cases roundBit <;> cases stickyBit <;>
    simp only [ExtendedMantissa.roundedMantissa, ExtendedMantissa.accuracy,
      Accuracy.roundToNearestEven] <;> omega

/-- Moving a mantissa to the right does not make it more. -/
theorem shiftToTargetExponent_le {m : Nat} {e k : Int} (acc : Accuracy) (h : m.log2 + e ≤ k)
    (low : -1074 ≤ k) :
    ((shiftToTargetExponent Format.binary64 m e acc).1.mantissa.log2 : Int) +
      (shiftToTargetExponent Format.binary64 m e acc).2 ≤ k := by
  have htarget : Format.binary64.targetExponent (totalExponent m e) ≤ k := by
    simp only [Format.targetExponent, totalExponent, Format.mantissaBits, Format.minExponent]
    omega
  have hmantissa : (ExtendedMantissa.ofMantissaAndAccuracy m acc).mantissa = m := by
    cases acc with
    | exact => rfl
    | inexact o => cases o <;> rfl
  simp only [shiftToTargetExponent, shiftToExponent, mantissa_shiftRight, hmantissa]
  generalize hs : (Format.binary64.targetExponent (totalExponent m e) - e).toNat = s
  by_cases hzero : m / 2 ^ s = 0
  · rw [hzero]
    simp only [Nat.log2_zero]
    omega
  · have := log2_div_two_pow_le hzero
    omega

/-- A mantissa that is rounded up may have one place more. -/
theorem below_roundWithAccuracy {m : Nat} {e k : Int} (s : Sign) (acc : Accuracy)
    (h : m.log2 + e ≤ k)
    (low : -1074 ≤ k) : Below (k + 1) (roundWithAccuracy Format.binary64 s m e acc) := by
  have hfirst := shiftToTargetExponent_le acc h low
  simp only [roundWithAccuracy]
  generalize shiftToTargetExponent Format.binary64 m e acc = first at hfirst ⊢
  have hrounded : (first.1.roundedMantissa.log2 : Int) + first.2 ≤ k + 1 := by
    have := (log2_le_log2 (roundedMantissa_le first.1)).trans (log2_succ_le first.1.mantissa)
    omega
  have hsecond := shiftToTargetExponent_le .exact hrounded (by omega)
  split
  · trivial
  · exact hsecond

theorem roundWithAccuracy_isFinite (s : Sign) (m : Nat) (e : Int) (acc : Accuracy) :
    (roundWithAccuracy Format.binary64 s m e acc).isFinite = true :=
  (below_roundWithAccuracy s acc (k := max (m.log2 + e) (-1074)) (by omega) (by omega)).isFinite

theorem below_div {u v : UnpackedFloat} {k e : Int} (hu : Below k u) (hv : PlacesFrom e v) :
    Below (max (k - e) (-1074) + 1) (UnpackedFloat.div Format.binary64 u v) := by
  obtain ⟨m, f, hm, rfl, hle⟩ := exists_of_placesFrom hv
  cases u with
  | infinity t => cases hu
  | notANumber => cases hu
  | zero t => trivial
  | finite t n g hn =>
    have hlog : (n.log2 : Int) + g ≤ k := hu
    simp only [UnpackedFloat.div, divCore]
    generalize htarget : min (g - f) _ = target
    apply below_roundWithAccuracy
    · have hquotient := log2_le_log2 (Nat.div_le_self (n <<< (g - f - target).toNat) m)
      rw [Nat.shiftLeft_eq, log2_mul_two_pow hn.ne'] at hquotient
      rw [Nat.shiftLeft_eq]
      omega
    · omega

/-! ### Packing -/

theorem below_unpack_packComponents {exponent : BitVec 11} (s : Sign)
    (mantissa : BitVec 52) {k : Int}
    (hfinite : exponent ≠ -1#11) (hexponent : exponent.toNat ≤ k + 1023) (low : -1022 ≤ k) :
    Below k
      (UnpackedFloat.unpack Format.binary64
        (packComponents Format.binary64 s exponent mantissa)) := by
  have hbias : (Format.binary64.exponentBias : Int) = 1023 := by decide
  have hmantissa := mantissa.isLt
  simp only [UnpackedFloat.unpack, unpackMantissa_packComponents, unpackExponent_packComponents,
    hfinite, if_false]
  split
  · split
    · trivial
    · rename_i hzero hnonzero
      have hpos : mantissa.toNat ≠ 0 := by simpa [← BitVec.toNat_inj] using hnonzero
      have hlog : mantissa.toNat.log2 < 52 := (Nat.log2_lt hpos).2 hmantissa
      simp only [Below, hzero, hbias, BitVec.toNat_ofNat]
      omega
  · have hvalue : (1#1 ++ mantissa).toNat = 2 ^ 52 + mantissa.toNat := by
      rw [BitVec.toNat_append, ← Nat.shiftLeft_add_eq_or_of_lt hmantissa]
      rfl
    have hfull : (1#1 ++ mantissa).toNat.log2 = 52 := by
      rw [hvalue, Nat.log2_eq_iff (by omega)]
      omega
    simp only [Below, hfull, hbias]
    omega

/-- What is packed is too great and becomes infinite, or it keeps its bound. -/
theorem infinite_or_below (s : Sign) {m : Nat} {e : Int} (hpos : 0 < m) :
    (971 < e ∧ (Float.Model.pack (.finite s m e hpos)).unpack = .infinity s) ∨
      Below (max 0 (m.log2 + e)) (Float.Model.pack (.finite s m e hpos)).unpack := by
  have hbias : (Format.binary64.exponentBias : Int) = 1023 := by decide
  change (_ ∧
    UnpackedFloat.unpack Format.binary64 (UnpackedFloat.pack Format.binary64 (.finite s m e hpos)) =
      _) ∨
    Below _
      (UnpackedFloat.unpack Format.binary64
        (UnpackedFloat.pack Format.binary64 (.finite s m e hpos)))
  simp only [UnpackedFloat.pack]
  by_cases hover : 971 < e
  · left
    rw [if_pos (by omega)]
    cases s <;> exact ⟨hover, rfl⟩
  right
  rw [if_neg (by omega)]
  split
  · rename_i hnormal
    have hexponent : (BitVec.ofNat 11 (e + Format.binary64.exponentBias + (52 : Nat)).toNat).toNat =
        (e + Format.binary64.exponentBias + (52 : Nat)).toNat := by
      rw [BitVec.toNat_ofNat]
      exact Nat.mod_eq_of_lt (by omega)
    simp only [Format.mantissaBits] at hnormal
    apply below_unpack_packComponents
    · rw [ne_eq, ← BitVec.toNat_inj, hexponent]
      simp
      omega
    · omega
    · omega
  · apply below_unpack_packComponents
    · decide
    · exact Int.add_nonneg (Int.le_max_left _ _) (by decide)
    · omega

theorem unpack_pack_zero (s : Sign) : (Float.Model.pack (.zero s)).unpack = .zero s :=
  unpack_packedZero

theorem below_unpack_pack {u : UnpackedFloat} {k : Int} (hu : Below k u) (low : 0 ≤ k)
    (high : k ≤ 971) :
    Below k (Float.Model.pack u).unpack := by
  obtain ⟨s, rfl⟩ | ⟨s, m, e, hpos, rfl⟩ := zero_or_finite hu.isFinite
  · rw [unpack_pack_zero]
    trivial
  · have hlog : (m.log2 : Int) + e ≤ k := hu
    obtain ⟨hover, _⟩ | hbelow := infinite_or_below (e := e) s hpos
    · omega
    · exact hbelow.mono (by omega)

/-- A float that is finite has an exponent that can be packed. -/
theorem exponent_unpack_le {b : BitVec 64} {s : Sign} {m : Nat} {e : Int} {hpos : 0 < m}
    (h : UnpackedFloat.unpack Format.binary64 b = .finite s m e hpos) : e ≤ 971 := by
  have hbias : (Format.binary64.exponentBias : Int) = 1023 := by decide
  simp only [UnpackedFloat.unpack] at h
  split at h
  · split at h <;> cases h
  · rename_i hfinite
    have hlt : (@unpackExponent Format.binary64 b).toNat < 2047 := by
      have hle : (@unpackExponent Format.binary64 b).toNat < 2048 := BitVec.isLt _
      have hne : (@unpackExponent Format.binary64 b).toNat ≠ 2047 :=
        fun h => hfinite (BitVec.eq_of_toNat_eq h)
      omega
    split at h
    · rename_i hzero
      split at h
      · cases h
      · cases h
        rw [hzero, BitVec.toNat_ofNat]
        omega
    · cases h
      omega

variable {x y : Float}

theorem neg_isFinite (hx : x.isFinite) : (-x).isFinite := by
  change (Float.Model.pack x.toModel.unpack.neg).unpack.isFinite
  obtain ⟨s, hu⟩ | ⟨s, m, e, hpos, hu⟩ := zero_or_finite (u := x.toModel.unpack) hx
  · rw [hu, UnpackedFloat.neg, unpack_pack_zero]
    rfl
  · have hexponent := exponent_unpack_le hu
    rw [hu]
    obtain ⟨hover, _⟩ | hbelow := infinite_or_below (e := e) (-s) hpos
    · omega
    · exact hbelow.isFinite

theorem mul_isFinite (hx : x.isFinite) (hy : y.isFinite) (hinf : (x * y).isInf = false) :
    (x * y).isFinite := by
  have hproduct : (UnpackedFloat.mul .binary64 x.toModel.unpack y.toModel.unpack).isFinite := by
    obtain ⟨s, hu⟩ | ⟨s, m, e, hm, hu⟩ := zero_or_finite (u := x.toModel.unpack) hx <;>
      obtain ⟨t, hv⟩ | ⟨t, n, f, hn, hv⟩ :=
        zero_or_finite (u := y.toModel.unpack) hy <;> rw [hu, hv]
    · rfl
    · rfl
    · rfl
    · exact roundWithAccuracy_isFinite _ _ _ _
  change
    (Float.Model.pack
      (UnpackedFloat.mul .binary64 x.toModel.unpack y.toModel.unpack)).unpack.isFinite
  change
    (Float.Model.pack
      (UnpackedFloat.mul .binary64 x.toModel.unpack y.toModel.unpack)).unpack.isInf = false at hinf
  obtain ⟨s, hu⟩ | ⟨s, m, e, hpos, hu⟩ := zero_or_finite hproduct
  · rw [hu, unpack_pack_zero]
    rfl
  · rw [hu] at hinf ⊢
    obtain ⟨_, hinfinite⟩ | hbelow := infinite_or_below (e := e) s hpos
    · rw [hinfinite] at hinf
      cases hinf
    · exact hbelow.isFinite

/-! ### Powers of ten -/

theorem stands_powerOfTen {n : Nat} (hlog : (10 ^ n).log2 ≤ 1022) :
    Stands (.ofScientific .binary64 1 n) (roundNat (10 ^ n * 2 ^ 53) * 2 ^ (-53 : Int)) := by
  have hpos : 0 < 10 ^ n := Nat.pow_pos (by decide)
  have hsmall : n ≤ 1022 := by
    have htwo : 2 ^ n ≤ 10 ^ n := Nat.pow_le_pow_left (by decide) n
    exact ((Nat.le_log2 hpos.ne').2 htwo).trans hlog
  have hfull := log2_mul_two_pow hpos.ne' 53
  have hround :=
    stands_roundWithAccuracy (m := 10 ^ n * 2 ^ 53) (e := -53) .positive (by omega)
      (by omega) (by omega)
  have hbits : (2 : Int) ^ Format.binary64.exponentBits = 2048 := by decide
  have hmantissa : 1 <<< Format.binary64.mantissaBits * 10 ^ (n : Int).toNat = 10 ^ n * 2 ^ 53 := by
    rw [Nat.mul_comm]
    rfl
  rw [UnpackedFloat.ofScientific, dif_neg one_ne_zero, if_neg (by omega), if_neg (by simp; omega),
    if_pos (Int.natCast_nonneg n)]
  simp only [UnpackedFloat.mul, hmantissa]
  exact hround

theorem placesFrom_powerOfTen {n : Nat} (hlog : (10 ^ n).log2 ≤ 1022) :
    PlacesFrom (-52) (Float.Model.pack (.ofScientific .binary64 1 n)).unpack := by
  have hpos : 0 < 10 ^ n := Nat.pow_pos (by decide)
  have hfull := log2_mul_two_pow hpos.ne' 53
  have hpower : 2 ^ 53 ≤ roundNat (10 ^ n * 2 ^ 53) := by
    have := two_pow_log2_le_roundNat (Nat.mul_pos hpos (Nat.two_pow_pos 53)).ne'
    exact (Nat.pow_le_pow_right two_pos (by omega)).trans this
  have hpower : (2 : ℚ) ^ (53 : Int) ≤ roundNat (10 ^ n * 2 ^ 53) := by exact_mod_cast hpower
  have hone : (1 : ℚ) ≤ roundNat (10 ^ n * 2 ^ 53) * 2 ^ (-53 : Int) := by
    calc (1 : ℚ) = 2 ^ (53 : Int) * 2 ^ (-53 : Int) := by rw [← zpow_add₀ two_ne_zero]; rfl
      _ ≤ roundNat (10 ^ n * 2 ^ 53) * 2 ^ (-53 : Int) := by gcongr
  rw [(stands_powerOfTen hlog).unpack_pack]
  exact (stands_powerOfTen hlog).placesFrom hone

end ProcEngine
