import Mathlib
import ProcEngine.Json.Reader
import ProcEngine.Proofs.Number.Range
/-!
# What is read from a text is finite

The only numbers of a text that need care are those with a point, an exponent or too many digits. A
product that becomes infinite is refused, and divisions start from a float below `2 ^ 65` and are by
powers of ten, so that nothing else is to be refused.
-/

namespace ProcEngine.Json

def Number.isFinite : Number → Bool
  | float x => x.isFinite
  | nat _ | neg _ => true

mutual

/-- Whether all numbers in the value are finite. -/
def isFinite : Json → Bool
  | number n => n.isFinite
  | array items => itemsFinite items
  | object members => membersFinite members
  | null | bool _ | string _ | unreadable => true

def itemsFinite : List Json → Bool
  | [] => true
  | j :: rest => isFinite j && itemsFinite rest

def membersFinite : List (Option String × Json) → Bool
  | [] => true
  | (_, j) :: rest => isFinite j && membersFinite rest

end

theorem itemsFinite_iff {items : List Json} : itemsFinite items ↔ ∀ j ∈ items, j.isFinite := by
  induction items with
  | nil => simp [itemsFinite]
  | cons j rest ih => simp [itemsFinite, ih]

theorem membersFinite_iff {members : List (Option String × Json)} :
    membersFinite members ↔ ∀ m ∈ members, m.2.isFinite := by
  induction members with
  | nil => simp [membersFinite]
  | cons m rest ih => simp [membersFinite, ih]

theorem float?_isFinite {j : Json} {x : Float} (h : j.float? = some x) (hj : j.isFinite) :
    x.isFinite := by
  unfold float? at h
  split at h
  · cases h
    exact (carries_toFloat _).isFinite
  · cases h
    exact (carries_toFloat _).neg.isFinite
  · cases h
    simpa [isFinite, Number.isFinite] using hj
  · cases h

/-! ### Powers of ten -/

/-- Small powers come from a table and the largest one is rounded in the last place of all, the
others are products that are rounded to a float with all its places. -/
theorem powerOfTen_places {n : Nat} (hn : n ≤ 308) : PlacesFrom (-52)
    (powerOfTen n).toModel.unpack := by
  have hsmall : ∀ n < 23, PlacesFrom (-52) (powerOfTen n).toModel.unpack := by decide +kernel
  have hlargest : PlacesFrom (-52) (powerOfTen 308).toModel.unpack := by decide +kernel
  have hlog : ∀ n < 308, (10 ^ n).log2 ≤ 1022 := by decide +kernel
  rcases Nat.lt_or_ge n 23 with hlow | hlow
  · exact hsmall n hlow
  rcases hn.eq_or_lt with rfl | hhigh
  · exact hlargest
  rw [powerOfTen, Float.ofScientific, dif_neg (by omega)]
  exact placesFrom_powerOfTen (hlog n hhigh)

theorem powerOfTen_isFinite {n : Nat} (hn : n ≤ 308) : (powerOfTen n).isFinite := by
  obtain ⟨m, e, hpos, heq, _⟩ := exists_of_placesFrom (powerOfTen_places hn)
  change (powerOfTen n).toModel.unpack.isFinite
  rw [heq]
  rfl

theorem largest_places : PlacesFrom 971 (powerOfTen 308).toModel.unpack := by decide +kernel

/-! ### Numerals -/

/-- All divisions but the last are by the largest power and take a thousand places away, so only the
last one adds to the bound. -/
theorem scaleDown_isFinite {x : Float} (hx : Below 64 x.toModel.unpack) (shift fuel : Nat) :
    (scaleDown x shift fuel).isFinite := by
  induction fuel generalizing x shift with
  | zero => exact hx.isFinite
  | succ fuel ih =>
    simp only [scaleDown]
    split
    · have hquotient := below_div hx (powerOfTen_places ‹_›)
      exact (below_unpack_pack hquotient (by decide) (by decide)).isFinite
    · split
      · exact hx.isFinite
      · have hquotient := below_div hx largest_places
        exact ih (below_unpack_pack (hquotient.mono (l := 64) (by decide)) (by decide)
          (by decide)) _

theorem toFloat?_isFinite {g : Gathered} {x : Float} (h : g.toFloat? = some x) : x.isFinite := by
  have hword := below_toFloat (UInt64.ofNat g.word)
  simp only [Gathered.toFloat?] at h
  split at h
  · split at h
    · split at h
      · cases h
      · cases h
        exact mul_isFinite hword.isFinite (powerOfTen_isFinite (by omega))
          (Bool.eq_false_of_not_eq_true ‹_›)
    · split at h
      · cases h
        exact hword.isFinite
      · cases h
  · cases h
    exact scaleDown_isFinite hword _ _

theorem scaled?_isFinite {g : Gathered} {exponent : Option (Bool × List Nat)} {x : Float}
    (h : g.scaled? exponent = some x) : x.isFinite := by
  rcases exponent with _ | ⟨negative, digits⟩
  · exact toFloat?_isFinite h
  · simp only [Gathered.scaled?] at h
    by_cases hrange : natOfDigits digits < 0x80000000
    · rw [if_pos hrange] at h
      exact toFloat?_isFinite h
    · rw [if_neg hrange] at h
      split at h
      · cases h
        exact carries_zero.isFinite
      · cases h

theorem value?_isFinite {numeral : Numeral} {n : Number} (h : numeral.value? = some n) :
    n.isFinite := by
  obtain ⟨negative, whole, fraction, exponent⟩ := numeral
  have hsigned : ∀ x : Float, x.isFinite → (if negative then -x else x).isFinite := by
    intro x hx
    split
    · exact neg_isFinite hx
    · exact hx
  simp only [Numeral.value?] at h
  split at h
  · split at h
    · split at h
      · cases h
        rfl
      · split at h
        · cases h
          exact hsigned _ (below_toFloat _).isFinite
        · cases h
          rfl
    · obtain ⟨x, hx, rfl⟩ := Option.map_eq_some_iff.mp h
      exact hsigned x (toFloat?_isFinite hx)
  · obtain ⟨x, hx, rfl⟩ := Option.map_eq_some_iff.mp h
    exact hsigned x (scaled?_isFinite hx)

/-! ### Texts -/

theorem scanNumber_isFinite {negative : Bool} {cs rest : Input} {j : Json}
    (h : scanNumber negative cs = some (j, rest)) : j.isFinite := by
  obtain ⟨⟨whole, _⟩, _, h⟩ := Option.bind_eq_some_iff.mp h
  obtain ⟨⟨fraction, _⟩, _, h⟩ := Option.bind_eq_some_iff.mp h
  obtain ⟨⟨exponent, _⟩, _, h⟩ := Option.bind_eq_some_iff.mp h
  simp only [Option.pure_def, Option.some_inj, Prod.mk.injEq] at h
  obtain ⟨rfl, -⟩ := h
  split
  · exact value?_isFinite ‹_›
  · rfl

theorem scanKeyword_isFinite {word : List Char} {cs rest : Input} {j k : Json} (hj : j.isFinite)
    (h : scanKeyword word j cs = some (k, rest)) : k.isFinite := by
  unfold scanKeyword at h
  split at h
  · cases h
    exact hj
  · cases h

mutual

theorem scanValue_isFinite {fuel : Nat} {cs rest : Input} {j : Json}
    (h : scanValue fuel cs = some (j, rest)) :
    j.isFinite := by
  cases fuel with
  | zero => simp [scanValue] at h
  | succ fuel =>
    simp only [scanValue] at h
    split at h
    · obtain ⟨⟨s, _⟩, _, h⟩ := Option.map_eq_some_iff.mp h
      cases h
      cases s <;> rfl
    · split at h
      · cases h
        rfl
      · obtain ⟨⟨items, _⟩, hitems, h⟩ := Option.map_eq_some_iff.mp h
        cases h
        exact scanItems_isFinite hitems
    · split at h
      · cases h
        rfl
      · obtain ⟨⟨members, _⟩, hmembers, h⟩ := Option.map_eq_some_iff.mp h
        cases h
        exact scanMembers_isFinite hmembers
    · exact scanKeyword_isFinite rfl h
    · exact scanKeyword_isFinite rfl h
    · exact scanKeyword_isFinite rfl h
    · exact scanNumber_isFinite h
    · exact scanNumber_isFinite h

theorem scanItems_isFinite {fuel : Nat} {cs rest : Input} {items : List Json}
    (h : scanItems fuel cs = some (items, rest)) : itemsFinite items := by
  cases fuel with
  | zero => simp [scanItems] at h
  | succ fuel =>
    simp only [scanItems] at h
    obtain ⟨⟨item, _⟩, hitem, h⟩ := Option.bind_eq_some_iff.mp h
    have hitem := scanValue_isFinite hitem
    dsimp only at h
    split at h
    · obtain ⟨⟨items, _⟩, hitems, h⟩ := Option.bind_eq_some_iff.mp h
      cases h
      simp [itemsFinite, hitem, scanItems_isFinite hitems]
    · cases h
      simp [itemsFinite, hitem]
    · cases h

theorem scanMembers_isFinite {fuel : Nat} {cs rest : Input} {members : List (Option String × Json)}
    (h : scanMembers fuel cs = some (members, rest)) : membersFinite members := by
  cases fuel with
  | zero => simp [scanMembers] at h
  | succ fuel =>
    simp only [scanMembers] at h
    split at h
    case h_2 => cases h
    obtain ⟨⟨key, _⟩, _, h⟩ := Option.bind_eq_some_iff.mp h
    dsimp only at h
    split at h
    case h_2 => cases h
    obtain ⟨⟨value, _⟩, hvalue, h⟩ := Option.bind_eq_some_iff.mp h
    have hvalue := scanValue_isFinite hvalue
    dsimp only at h
    split at h
    · obtain ⟨⟨members, _⟩, hmembers, h⟩ := Option.bind_eq_some_iff.mp h
      cases h
      simp [membersFinite, hvalue, scanMembers_isFinite hmembers]
    · cases h
      simp [membersFinite, hvalue]
    · cases h

end

theorem parse_isFinite {text : String} {j : Json} (h : parse text = some j) : j.isFinite := by
  simp only [parse] at h
  split at h
  · split at h
    · cases h
      exact scanValue_isFinite ‹_›
    · cases h
  · cases h

end ProcEngine.Json
