import Mathlib
/-!
# Rounding integers to floats

A float has 53 binary places. The integers that are floats lie one apart up to `2 ^ 53`, two apart
up to `2 ^ 54`, and so on. `rounded` takes an integer to the nearest of them, to the even one of two
equally near, in whole numbers alone.
-/

namespace ProcEngine

/-- How far apart the floats lie from the greatest power of two below `n` to the next one. -/
def spacing (n : Nat) : Nat := 2 ^ (n.log2 - 52)

/-- How many units make `n`, to the nearest number and to the even one of two equally near. -/
def unitsIn (unit n : Nat) : Nat :=
  n / unit + if 2 * (n % unit) < unit then 0 else if unit < 2 * (n % unit) then 1 else n / unit % 2

def roundNat (n : Nat) : Nat := unitsIn (spacing n) n * spacing n

/-- The float nearest to an integer, to the even one of two equally near. -/
def rounded (n : Int) : Int := n.sign * roundNat n.natAbs

variable {unit a b n k : Nat}

/-! ### Units -/

theorem div_le_unitsIn (unit n : Nat) : n / unit ≤ unitsIn unit n :=
  Nat.le_add_right _ _

theorem unitsIn_le (unit n : Nat) : unitsIn unit n ≤ n / unit + 1 := by
  unfold unitsIn
  split
  · omega
  · split <;> omega

theorem unitsIn_mono (h : a ≤ b) : unitsIn unit a ≤ unitsIn unit b := by
  rcases (Nat.div_le_div_right (c := unit) h).lt_or_eq with hlt | heq
  · exact (unitsIn_le unit a).trans (hlt.trans_le (div_le_unitsIn unit b))
  · have hrest : a % unit ≤ b % unit := by
      have ha := Nat.div_add_mod a unit
      have hb := Nat.div_add_mod b unit
      rw [heq] at ha
      omega
    unfold unitsIn
    rw [heq]
    split_ifs <;> omega

/-- A number of units is found again. -/
theorem unitsIn_mul (hunit : 0 < unit) (k : Nat) : unitsIn unit (k * unit) = k := by
  simp [unitsIn, hunit]

theorem unitsIn_one (n : Nat) : unitsIn 1 n = n := by
  simpa using unitsIn_mul Nat.one_pos n

/-- The count is off by half a unit at most. -/
theorem two_mul_unitsIn_mul (hunit : 0 < unit) (n : Nat) :
    2 * n ≤ 2 * (unitsIn unit n * unit) + unit ∧ 2 * (unitsIn unit n * unit) ≤ 2 * n + unit := by
  have hn := Nat.div_add_mod n unit
  have hrest := Nat.mod_lt n hunit
  have hmod := Nat.mod_two_eq_zero_or_one (n / unit)
  unfold unitsIn
  generalize hq : n / unit = q at *
  rw [Nat.mul_comm unit q] at hn
  split_ifs
  · simp only [add_zero]
    omega
  · rw [Nat.add_mul, Nat.one_mul]
    omega
  · rcases hmod with hmod | hmod <;> rw [hmod, Nat.add_mul] <;> omega

/-- Half a unit away on either side, the count is even. -/
theorem even_unitsIn_of_tie (hunit : 0 < unit)
    (h : 2 * n = 2 * (unitsIn unit n * unit) + unit ∨ 2 * (unitsIn unit n * unit) = 2 * n + unit) :
    Even (unitsIn unit n) := by
  have hn := Nat.div_add_mod n unit
  have hrest := Nat.mod_lt n hunit
  rw [Nat.even_iff]
  unfold unitsIn at h ⊢
  generalize n / unit = q at *
  rw [Nat.mul_comm unit q] at hn
  split_ifs at h ⊢
  · simp only [add_zero] at h
    omega
  · rw [Nat.add_mul, Nat.one_mul] at h
    omega
  · omega

/-! ### Spacing -/

theorem spacing_pos (n : Nat) : 0 < spacing n :=
  Nat.two_pow_pos _

theorem spacing_eq_one (h : n < 2 ^ 53) : spacing n = 1 := by
  have : n.log2 ≤ 52 := by
    rcases Nat.eq_zero_or_pos n with rfl | hpos
    · simp
    · exact Nat.le_of_lt_succ ((Nat.log2_lt hpos.ne').2 h)
  simp [spacing, Nat.sub_eq_zero_of_le this]

theorem spacing_dvd_two_pow (n : Nat) {e : Nat} (h : n.log2 ≤ e) : spacing n ∣ 2 ^ e :=
  Nat.pow_dvd_pow 2 ((Nat.sub_le _ _).trans h)

theorem spacing_dvd (h : a.log2 ≤ b.log2) : spacing a ∣ spacing b :=
  Nat.pow_dvd_pow 2 (Nat.sub_le_sub_right h 52)

/-! ### Rounding a natural number -/

@[simp] theorem roundNat_zero : roundNat 0 = 0 := by
  simp [roundNat, unitsIn]

theorem roundNat_of_dvd (h : spacing n ∣ n) : roundNat n = n := by
  have hcount := unitsIn_mul (spacing_pos n) (n / spacing n)
  rw [Nat.div_mul_cancel h] at hcount
  rw [roundNat, hcount, Nat.div_mul_cancel h]

theorem spacing_dvd_roundNat (n : Nat) : spacing n ∣ roundNat n :=
  Dvd.intro_left _ rfl

/-- A number that needs no more than 53 places is kept. -/
theorem roundNat_of_le (h : n ≤ 2 ^ 53) : roundNat n = n := by
  rcases h.lt_or_eq with hlt | rfl
  · exact roundNat_of_dvd (by simp [spacing_eq_one hlt])
  · exact roundNat_of_dvd (spacing_dvd_two_pow _ Nat.log2_two_pow.le)

/-- No multiple of the spacing lies between a number and what it is rounded to. -/
theorem roundNat_le (hdvd : spacing n ∣ b) (h : n ≤ b) : roundNat n ≤ b := by
  obtain ⟨k, rfl⟩ := hdvd
  rw [Nat.mul_comm] at h ⊢
  have hk := unitsIn_mul (spacing_pos n) k
  exact Nat.mul_le_mul_right _ (hk ▸ unitsIn_mono h)

theorem le_roundNat (hdvd : spacing n ∣ a) (h : a ≤ n) : a ≤ roundNat n := by
  obtain ⟨k, rfl⟩ := hdvd
  rw [Nat.mul_comm] at h ⊢
  have hk := unitsIn_mul (spacing_pos n) k
  exact Nat.mul_le_mul_right _ (hk ▸ unitsIn_mono h)

theorem two_pow_log2_le_roundNat (hn : n ≠ 0) : 2 ^ n.log2 ≤ roundNat n :=
  le_roundNat (spacing_dvd_two_pow n le_rfl) (Nat.log2_self_le hn)

theorem roundNat_le_two_pow (n : Nat) : roundNat n ≤ 2 ^ (n.log2 + 1) :=
  roundNat_le (spacing_dvd_two_pow n (Nat.le_succ _)) Nat.lt_log2_self.le

theorem roundNat_pos (hn : n ≠ 0) : 0 < roundNat n :=
  (Nat.two_pow_pos _).trans_le (two_pow_log2_le_roundNat hn)

theorem roundNat_mono (h : a ≤ b) : roundNat a ≤ roundNat b := by
  rcases eq_or_ne a 0 with rfl | ha
  · simp
  have hb : b ≠ 0 := by omega
  have hlog : a.log2 ≤ b.log2 := (Nat.le_log2 hb).2 ((Nat.log2_self_le ha).trans h)
  rcases hlog.lt_or_eq with hlt | heq
  · calc roundNat a ≤ 2 ^ (a.log2 + 1) := roundNat_le_two_pow a
      _ ≤ 2 ^ b.log2 := Nat.pow_le_pow_right two_pos hlt
      _ ≤ roundNat b := two_pow_log2_le_roundNat hb
  · have hs : spacing a = spacing b := by rw [spacing, spacing, heq]
    rw [roundNat, roundNat, hs]
    exact Nat.mul_le_mul_right _ (unitsIn_mono h)

/-- Any other multiple of the spacing is farther away, or as far away and then the count is even. -/
theorem roundNat_nearest_of_dvd {m : Nat} (hdvd : spacing n ∣ m) (hne : m ≠ roundNat n) :
    ((n : Int) - roundNat n).natAbs < ((n : Int) - m).natAbs ∨
      ((n : Int) - roundNat n).natAbs = ((n : Int) - m).natAbs ∧ Even (unitsIn (spacing n) n) := by
  have hpos := spacing_pos n
  have heven := even_unitsIn_of_tie (n := n) hpos
  obtain ⟨hlow, hhigh⟩ := two_mul_unitsIn_mul hpos n
  obtain ⟨k, rfl⟩ := hdvd
  rw [Nat.mul_comm] at hne ⊢
  have hapart : k * spacing n + spacing n ≤ roundNat n ∨ roundNat n + spacing n ≤
      k * spacing n := by
    rw [← Nat.succ_mul, roundNat, ← Nat.succ_mul]
    rcases Nat.lt_trichotomy k (unitsIn (spacing n) n) with hlt | rfl | hgt
    · exact .inl (Nat.mul_le_mul_right _ hlt)
    · exact absurd rfl hne
    · exact .inr (Nat.mul_le_mul_right _ hgt)
  change 2 * n ≤ 2 * roundNat n + _ at hlow
  change 2 * roundNat n ≤ _ at hhigh
  change 2 * n = 2 * roundNat n + _ ∨ 2 * roundNat n = _ → _ at heven
  generalize k * spacing n = multiple at *
  by_cases htie : 2 * n = 2 * roundNat n + spacing n ∨ 2 * roundNat n = 2 * n + spacing n
  · refine (le_iff_lt_or_eq.1 ?_).imp_right fun h => ⟨h, heven htie⟩
    omega
  · left
    omega

/-- No float is nearer to a number than what it is rounded to, and of two equally near it is the
even one. -/
theorem roundNat_nearest {m : Nat} (hm : spacing m ∣ m) (hne : m ≠ roundNat n) :
    ((n : Int) - roundNat n).natAbs < ((n : Int) - m).natAbs ∨
      ((n : Int) - roundNat n).natAbs = ((n : Int) - m).natAbs ∧ Even (unitsIn (spacing n) n) := by
  rcases le_or_gt n.log2 m.log2 with hlog | hlog
  · exact roundNat_nearest_of_dvd ((spacing_dvd hlog).trans hm) hne
  -- a number of fewer places lies below the power of two that `n` begins with
  · have hn : n ≠ 0 := fun h => by simp [h] at hlog
    have hbelow : m < 2 ^ n.log2 :=
      Nat.lt_log2_self.trans_le (Nat.pow_le_pow_right two_pos hlog)
    have hpower := Nat.log2_self_le hn
    left
    have hnearest := roundNat_nearest_of_dvd (spacing_dvd_two_pow n le_rfl)
    generalize 2 ^ n.log2 = power at *
    rcases eq_or_ne power (roundNat n) with rfl | hother
    · omega
    · have := hnearest hother
      omega

theorem spacing_roundNat_dvd (n : Nat) : spacing (roundNat n) ∣ roundNat n := by
  rcases eq_or_ne n 0 with rfl | hn
  · simp
  rcases (roundNat_le_two_pow n).lt_or_eq with hlt | heq
  · have hlog : (roundNat n).log2 ≤ n.log2 :=
      Nat.le_of_lt_succ ((Nat.log2_lt (roundNat_pos hn).ne').2 hlt)
    exact (spacing_dvd hlog).trans (spacing_dvd_roundNat n)
  · rw [heq]
    exact spacing_dvd_two_pow _ (by simp)

theorem roundNat_eq_self_iff : roundNat n = n ↔ spacing n ∣ n :=
  ⟨fun h => h ▸ spacing_roundNat_dvd n, roundNat_of_dvd⟩

/-! ### Rounding an integer -/

@[simp] theorem rounded_natCast (n : Nat) : rounded n = roundNat n := by
  rcases eq_or_ne n 0 with rfl | hn
  · simp [rounded]
  · simp [rounded, Int.sign_natCast_of_ne_zero hn]

@[simp] theorem rounded_neg (n : Int) : rounded (-n) = -rounded n := by
  simp [rounded]

theorem rounded_nonneg {n : Int} (h : 0 ≤ n) : 0 ≤ rounded n := by
  obtain ⟨k, rfl⟩ := Int.eq_ofNat_of_zero_le h
  simp

theorem rounded_mono {a b : Int} (h : a ≤ b) : rounded a ≤ rounded b := by
  rcases le_total 0 a with ha | ha
  · obtain ⟨m, rfl⟩ := Int.eq_ofNat_of_zero_le ha
    obtain ⟨n, rfl⟩ := Int.eq_ofNat_of_zero_le (ha.trans h)
    simpa using roundNat_mono (Int.ofNat_le.1 h)
  · obtain ⟨m, hm⟩ := Int.eq_ofNat_of_zero_le (Int.neg_nonneg_of_nonpos ha)
    obtain rfl : a = -m := by omega
    rcases le_total 0 b with hb | hb
    · have hle : rounded (-(m : Int)) ≤ 0 := by simp
      exact hle.trans (rounded_nonneg hb)
    · obtain ⟨n, hn⟩ := Int.eq_ofNat_of_zero_le (Int.neg_nonneg_of_nonpos hb)
      obtain rfl : b = -n := by omega
      simpa using roundNat_mono (a := n) (b := m) (by omega)

theorem rounded_of_natAbs_le {n : Int} (h : n.natAbs ≤ 2 ^ 53) : rounded n = n := by
  rcases n.eq_nat_or_neg with ⟨k, rfl | rfl⟩ <;>
  · simp only [rounded_neg, rounded_natCast]
    rw [roundNat_of_le (by simpa using h)]

/-- No float is nearer to an integer than what it is rounded to, and of two equally near it is the
even one. -/
theorem rounded_nearest {n m : Int} (hm : rounded m = m) (hne : m ≠ rounded n) :
    (n - rounded n).natAbs < (n - m).natAbs ∨
      (n - rounded n).natAbs = (n - m).natAbs ∧ Even (unitsIn (spacing n.natAbs) n.natAbs) := by
  -- rounding is symmetric, so it is enough to look at a number that is not negative
  suffices key : ∀ (n : Nat) (m : Int), rounded m = m → m ≠ roundNat n →
      ((n : Int) - roundNat n).natAbs < ((n : Int) - m).natAbs ∨
        ((n : Int) - roundNat n).natAbs = ((n : Int) - m).natAbs ∧ Even (unitsIn (spacing n) n) by
    rcases n.eq_nat_or_neg with ⟨k, rfl | rfl⟩
    · simpa using key k m hm (by simpa using hne)
    · have := key k (-m) (by rw [rounded_neg, hm]) (by simpa [neg_eq_iff_eq_neg] using hne)
      rw [← Int.natAbs_neg, ← Int.natAbs_neg (-(k : Int) - m)]
      simpa [sub_eq_add_neg, add_comm] using this
  intro n m hm hne
  rcases le_or_gt 0 m with hpos | hneg
  · obtain ⟨j, rfl⟩ := Int.eq_ofNat_of_zero_le hpos
    exact roundNat_nearest (roundNat_eq_self_iff.1 (by simpa using hm)) (by simpa using hne)
  · left
    rcases eq_or_ne 0 (roundNat n) with hzero | hzero
    · omega
    · have := roundNat_nearest (dvd_zero (spacing 0)) hzero
      omega

end ProcEngine
