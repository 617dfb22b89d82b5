import Mathlib.Algebra.Order.Field.Power
import Mathlib.Data.Rat.Cast.Order
import Mathlib.Tactic.FieldSimp
import Mathlib.Tactic.Linarith
import Mathlib.Tactic.NormNum
import Mathlib.Tactic.Ring
import Prosaic.Numeric.Binary64

/-!
Where rounding to the nearest double overflows. The largest finite double is `2 ^ 53 - 1` units of
`2 ^ 971`; half a unit above it lies `2 ^ 1024 - 2 ^ 970`, which goes to the even neighbour, and
that one is infinite. So just the numbers below are rounded to finite doubles.
-/

namespace Prosaic.Binary64

variable {num den : Nat} {negative : Bool}

/-! ### Rounding a quotient -/

theorem div_le_roundQuotient (num den : Nat) : num / den ≤ roundQuotient num den := by
  unfold roundQuotient
  grind

theorem roundQuotient_le (num den : Nat) : roundQuotient num den ≤ num / den + 1 := by
  unfold roundQuotient
  grind

/-- An even number is reached from half a unit below it on. -/
theorem succ_le_roundQuotient_iff {k : Nat} (hk : k % 2 = 1) (hden : 0 < den) :
    k + 1 ≤ roundQuotient num den ↔ (2 * k + 1) * den ≤ 2 * num := by
  have hnum : 2 * num = 2 * (num / den * den) + 2 * (num % den) := by
    rw [← Nat.mul_add, Nat.div_add_mod']
  have hleft : (2 * k + 1) * den = 2 * (k * den) + den := by ring
  have hmod := Nat.mod_lt num hden
  rw [hnum, hleft]
  rcases Nat.lt_trichotomy (num / den) k with hlt | heq | hgt
  · have hround := roundQuotient_le num den
    have hmul : (num / den + 1) * den ≤ k * den := Nat.mul_le_mul_right den hlt
    rw [Nat.add_mul, Nat.one_mul] at hmul
    omega
  -- at the odd neighbour below, all depends on the remainder
  · simp only [roundQuotient, heq]
    split_ifs <;> omega
  · have hround := div_le_roundQuotient num den
    have hmul : (k + 1) * den ≤ num / den * den := Nat.mul_le_mul_right den hgt
    rw [Nat.add_mul, Nat.one_mul] at hmul
    omega

/-! ### Units -/

theorem inUnits_snd_pos (hden : 0 < den) (e : Int) : 0 < (inUnits num den e).2 :=
  Nat.mul_pos hden (Nat.pow_pos (by decide))

/-- A number in units of `2 ^ e`. -/
theorem inUnits_div (num den : Nat) (e : Int) :
    ((inUnits num den e).1 : ℚ) / (inUnits num den e).2 = num / den / 2 ^ e := by
  have hunit : (2 : ℚ) ^ e = 2 ^ e.toNat / 2 ^ (-e).toNat := by
    rw [← zpow_natCast, ← zpow_natCast, ← zpow_sub₀ two_ne_zero]
    congr 1
    omega
  rw [hunit, inUnits]
  simp only [Nat.pow_eq, Nat.cast_mul, Nat.cast_pow, Nat.cast_ofNat]
  field_simp

theorem lt_inUnits_iff {k : Nat} (hden : 0 < den) (e : Int) :
    (inUnits num den e).1 < k * (inUnits num den e).2 ↔ (num : ℚ) / den < k * 2 ^ e := by
  have hpos : (0 : ℚ) < (inUnits num den e).2 := by exact_mod_cast inUnits_snd_pos hden e
  rw [← div_lt_iff₀ (zpow_pos two_pos e), ← inUnits_div, div_lt_iff₀ hpos]
  exact_mod_cast Iff.rfl

/-- A number lies between the powers of two that its logarithm gives. -/
theorem log2_bounds {n : Nat} (hn : n ≠ 0) :
    (2 : ℚ) ^ (n.log2 : Int) ≤ n ∧ (n : ℚ) < 2 ^ ((n.log2 : Int) + 1) := by
  constructor
  · rw [zpow_natCast]
    exact_mod_cast Nat.log2_self_le hn
  · exact_mod_cast Nat.lt_log2_self (n := n)

/-- So does a quotient, but for a factor of two. -/
theorem div_bounds (hnum : num ≠ 0) (hden : 0 < den) :
    (2 : ℚ) ^ ((num.log2 : Int) - den.log2 - 1) < num / den ∧
      (num : ℚ) / den < 2 ^ ((num.log2 : Int) - den.log2 + 1) := by
  obtain ⟨hnum_le, hnum_lt⟩ := log2_bounds hnum
  obtain ⟨hden_le, hden_lt⟩ := log2_bounds hden.ne'
  have hpos : (0 : ℚ) < den := by exact_mod_cast hden
  constructor
  · rw [lt_div_iff₀ hpos]
    calc (2 : ℚ) ^ ((num.log2 : Int) - den.log2 - 1) * den
        < 2 ^ ((num.log2 : Int) - den.log2 - 1) * 2 ^ ((den.log2 : Int) + 1) := by gcongr
      _ = 2 ^ (num.log2 : Int) := by
        rw [← zpow_add₀ two_ne_zero]
        congr 1
        ring
      _ ≤ num := hnum_le
  · rw [div_lt_iff₀ hpos]
    calc (num : ℚ) < 2 ^ ((num.log2 : Int) + 1) := hnum_lt
      _ = 2 ^ ((num.log2 : Int) - den.log2 + 1) * 2 ^ (den.log2 : Int) := by
        rw [← zpow_add₀ two_ne_zero]
        congr 1
        ring
      _ ≤ 2 ^ ((num.log2 : Int) - den.log2 + 1) * den := by gcongr

/-- In its units a number has at most fifty-three binary digits before the point, and no fewer
unless the unit is the smallest. -/
theorem unitExponent_bounds (hnum : num ≠ 0) (hden : 0 < den) :
    (num : ℚ) / den < 2 ^ (unitExponent num den + 53) ∧
      (unitExponent num den = minExponent ∨
        (2 : ℚ) ^ (unitExponent num den + 52) ≤ num / den) := by
  obtain ⟨hlow, hhigh⟩ := div_bounds hnum hden
  have hunits (e : Int) : (2 ^ 52 : Nat) * (2 : ℚ) ^ e = 2 ^ (e + 52) := by
    rw [zpow_add₀ two_ne_zero, mul_comm]
    norm_num
  unfold unitExponent
  simp only [Nat.pow_eq, lt_inUnits_iff hden, hunits]
  set guess : Int := (num.log2 : Int) - den.log2 - 52 with hguess
  split_ifs with hbelow
  · refine ⟨hbelow.trans_le (zpow_le_zpow_right₀ one_le_two (by omega)), ?_⟩
    rcases le_total (guess - 1) minExponent with hle | hle
    · exact .inl (max_eq_left hle)
    · rw [max_eq_right hle]
      refine .inr (le_trans (zpow_le_zpow_right₀ one_le_two ?_) hlow.le)
      omega
  · refine ⟨hhigh.trans_le (zpow_le_zpow_right₀ one_le_two (by omega)), ?_⟩
    rcases le_total guess minExponent with hle | hle
    · exact .inl (max_eq_left hle)
    · rw [max_eq_right hle]
      exact .inr (not_lt.mp hbelow)

/-! ### The limit -/

/-- The limit in halves of the unit of the largest doubles. -/
theorem limit_eq : (2 : ℚ) ^ 1024 - 2 ^ 970 = (2 ^ 54 - 1) * 2 ^ 970 := by
  rw [sub_mul, ← pow_add, one_mul]

theorem limit_pos : (0 : ℚ) < 2 ^ 1024 - 2 ^ 970 := by
  rw [limit_eq]
  exact mul_pos (by norm_num) (pow_pos two_pos 970)

/-- The mantissa overflows at the upper end of its units. -/
theorem roundQuotient_eq_iff (hden : 0 < den) {e : Int}
    (hbound : (num : ℚ) / den < 2 ^ (e + 53)) :
    roundQuotient (inUnits num den e).1 (inUnits num den e).2 = 2 ^ 53 ↔
      (2 ^ 54 - 1) * (2 : ℚ) ^ (e - 1) ≤ num / den := by
  have hd : 0 < (inUnits num den e).2 := inUnits_snd_pos hden e
  have hlt : (inUnits num den e).1 < 2 ^ 53 * (inUnits num den e).2 := by
    rw [lt_inUnits_iff hden]
    rw [zpow_add₀ two_ne_zero] at hbound
    norm_num at hbound ⊢
    linarith
  have hle : roundQuotient (inUnits num den e).1 (inUnits num den e).2 ≤ 2 ^ 53 :=
    (roundQuotient_le _ _).trans (Nat.div_lt_of_lt_mul (Nat.mul_comm _ _ ▸ hlt))
  have hreached : 2 ^ 53 - 1 + 1 ≤ roundQuotient (inUnits num den e).1 (inUnits num den e).2 ↔ _ :=
    succ_le_roundQuotient_iff (by decide) hd
  have hpos : (0 : ℚ) < (inUnits num den e).2 := by exact_mod_cast hd
  have hhalf : (2 ^ 54 - 1) * (2 : ℚ) ^ (e - 1) = (2 ^ 54 - 1) / 2 * 2 ^ e := by
    rw [zpow_sub_one₀ two_ne_zero]
    ring
  calc roundQuotient (inUnits num den e).1 (inUnits num den e).2 = 2 ^ 53
      ↔ 2 ^ 53 - 1 + 1 ≤ roundQuotient (inUnits num den e).1 (inUnits num den e).2 := by omega
    _ ↔ (2 * (2 ^ 53 - 1) + 1) * (inUnits num den e).2 ≤ 2 * (inUnits num den e).1 := hreached
    _ ↔ (2 ^ 54 - 1) * ((inUnits num den e).2 : ℚ) ≤ 2 * (inUnits num den e).1 := by
      norm_num
      exact_mod_cast Iff.rfl
    _ ↔ (2 ^ 54 - 1) / 2 ≤ ((inUnits num den e).1 : ℚ) / (inUnits num den e).2 := by
      rw [le_div_iff₀ hpos, div_mul_eq_mul_div, div_le_iff₀ two_pos, mul_comm (2 : ℚ)]
    _ ↔ (2 ^ 54 - 1) * (2 : ℚ) ^ (e - 1) ≤ num / den := by
      rw [inUnits_div, le_div_iff₀ (zpow_pos two_pos e), hhalf]

/-- A quotient is rounded to a finite double exactly if it is below the limit. -/
theorem isFinite_ofRatio_iff (hden : 0 < den) :
    (ofRatio negative num den).isFinite = true ↔ (num : ℚ) / den < 2 ^ 1024 - 2 ^ 970 := by
  unfold ofRatio
  by_cases hnum : num = 0
  · simpa [hnum, isFinite] using limit_pos
  obtain ⟨hhigh, hlow⟩ := unitExponent_bounds hnum hden
  rw [if_neg hnum]
  simp only [Nat.pow_eq, roundQuotient_eq_iff hden hhigh]
  generalize unitExponent num den = e at hhigh hlow
  rw [limit_eq]
  have hlargest : (2 : ℚ) ^ (970 : Int) = 2 ^ 970 := zpow_natCast 2 970
  rcases lt_trichotomy e maxExponent with hlt | rfl | hgt
  · have hbelow : (num : ℚ) / den < (2 ^ 54 - 1) * 2 ^ 970 :=
      calc (num : ℚ) / den < 2 ^ (e + 53) := hhigh
        _ ≤ 2 ^ (53 + 970 : Int) :=
          zpow_le_zpow_right₀ one_le_two (by unfold maxExponent at hlt; omega)
        _ = 2 ^ 53 * 2 ^ 970 := by rw [zpow_add₀ two_ne_zero, hlargest]; rfl
        _ ≤ (2 ^ 54 - 1) * 2 ^ 970 := by gcongr; norm_num
    simp only [hlt, hlt.le, if_true, hbelow, iff_true]
    split <;> rfl
  · rw [show maxExponent - 1 = 970 from rfl, hlargest]
    simp only [lt_irrefl, le_refl, if_true, if_false]
    split_ifs with hover
    · exact iff_of_false (by simp [isFinite]) (not_lt.mpr hover)
    · exact iff_of_true rfl (not_le.mp hover)
  · have habove : (2 ^ 54 - 1) * 2 ^ 970 ≤ (num : ℚ) / den := by
      have hunit : e ≠ minExponent := by rintro rfl; exact absurd hgt (by decide)
      calc (2 ^ 54 - 1) * (2 : ℚ) ^ 970 ≤ 2 ^ 54 * 2 ^ 970 := by gcongr; norm_num
        _ = 2 ^ (54 + 970 : Int) := by rw [zpow_add₀ two_ne_zero, hlargest]; rfl
        _ ≤ 2 ^ (e + 52) :=
          zpow_le_zpow_right₀ one_le_two (by unfold maxExponent at hgt; omega)
        _ ≤ num / den := hlow.resolve_left hunit
    simp only [not_lt.mpr hgt.le, not_le.mpr hgt, if_false, not_lt.mpr habove, iff_false]
    split <;> simp [isFinite]

/-- Of the numbers with decimal digits just those below the limit are rounded to finite doubles. -/
theorem isFinite_ofDecimal_iff (negative : Bool) (digits places : Nat) :
    (ofDecimal negative digits (-(places : Int))).isFinite = true ↔
      (digits : ℚ) / 10 ^ places < 2 ^ 1024 - 2 ^ 970 := by
  unfold ofDecimal
  by_cases hdigits : digits = 0
  · simpa [hdigits, isFinite] using limit_pos
  rw [if_neg hdigits, if_neg (by omega)]
  split_ifs with hsmall
  -- so many places leave less than one
  · have hone : (1 : ℚ) ≤ 2 ^ 1024 - 2 ^ 970 := by
      rw [limit_eq]
      exact one_le_mul_of_one_le_of_one_le (by norm_num) (one_le_pow₀ one_le_two)
    have hlt : digits < 10 ^ places :=
      calc digits < 2 ^ (digits.log2 + 1) := Nat.lt_log2_self
        _ ≤ 10 ^ (digits.log2 + 1) := Nat.pow_le_pow_left (by decide) _
        _ ≤ 10 ^ places := Nat.pow_le_pow_right (by decide) (by omega)
    have hvalue : (digits : ℚ) / 10 ^ places < 1 := by
      rw [div_lt_iff₀ (pow_pos (by norm_num) places), one_mul]
      exact_mod_cast hlt
    exact iff_of_true rfl (hvalue.trans_le hone)
  · have hratio : (ofRatio negative digits (10 ^ places)).isFinite = true ↔ _ :=
      isFinite_ofRatio_iff (Nat.pow_pos (by decide))
    simpa using hratio

end Prosaic.Binary64
