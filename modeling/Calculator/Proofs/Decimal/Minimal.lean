/-
The coarsest decimal has the fewest digits, and of those that have as many it
is the nearest.

Take another decimal that reads as the value. It lies on a finer grid, so with
fewer digits it is below the leading power of ten of the coarsest decimal. That
power lies between the two, hence reads as the value as well, and then the
coarsest decimal has a single digit itself. With as many digits the same holds
if the other grid is finer, and only one digit is left to compare: some digit
of the finer grid against the power of ten above it. The intervals of nearly
all values are too narrow to hold both that power and the nine below it. Two
least units are the only exception, and there the power of ten is the nearer
one (`nine_add_ten_le`).
-/
import Calculator.Proofs.Decimal.Search

namespace Calculator.Decimal

open Binary64

/-- The coefficient is written with so many digits and no leading zero. -/
def HasDigits (d : Decimal) (s : Nat) : Prop := 10 ^ s ≤ 10 * d.coefficient ∧ d.coefficient < 10 ^ s

/-- A power of ten as a decimal. -/
def tenPower (k : Int) : Decimal := ⟨1, k⟩

variable {rank s s' : Nat} {d d' : Decimal}

theorem rational_tenPower (k : Int) : (tenPower k).rational = 10 ^ k := by
  rw [rational, tenPower, Nat.cast_one, one_mul]

theorem HasDigits.pos (h : HasDigits d s) : 0 < s := by
  refine Nat.pos_of_ne_zero fun hzero => ?_
  obtain ⟨hle, hlt⟩ := h
  rw [hzero, Nat.pow_zero] at hle hlt
  omega

/-- With `s` digits a decimal is below the power of ten with one digit more. -/
theorem HasDigits.lt (h : HasDigits d s) : d.rational < 10 ^ (d.exponent + s) := by
  have hcoefficient : (d.coefficient : ℚ) < 10 ^ s := by exact_mod_cast h.2
  rw [add_comm, zpow_add₀ (by norm_num), zpow_natCast]
  exact mul_lt_mul_of_pos_right hcoefficient (zpow_pos (by norm_num) _)

/-- Its first digit is no zero, so it is not below the power of ten with as
many. -/
theorem HasDigits.le (h : HasDigits d s) : 10 ^ (d.exponent + s - 1) ≤ d.rational := by
  have hcoefficient : (10 : ℚ) ^ s ≤ 10 * d.coefficient := by exact_mod_cast h.1
  have hpower : (10 : ℚ) ^ (d.exponent + s - 1) = 10 ^ s / 10 * 10 ^ d.exponent := by
    rw [zpow_sub_one₀ (by norm_num), zpow_add₀ (by norm_num), zpow_natCast]
    ring
  rw [hpower]
  refine mul_le_mul_of_nonneg_right ?_ (zpow_nonneg (by norm_num) _)
  linarith

-- ================================================================ normal form

/-- What a decimal reads as is told by its rational number. -/
theorem readsAs_congr (hrank : rank < rankCount) (h : d.rational = d'.rational)
    (hreads : readsAs rank d' = true) : readsAs rank d = true := by
  rw [readsAs_iff_rank hrank] at hreads ⊢
  exact rank_between hreads hreads h.ge h.le

/-- Written without zeros at its end the coarsest decimal is the coarsest. -/
theorem Coarsest.congr (hrank : rank < rankCount) (h : Coarsest rank d')
    (heq : d.rational = d'.rational) (hlast : ¬ 10 ∣ d.coefficient) : Coarsest rank d := by
  have hreads := readsAs_congr hrank heq h.reads
  have hexponent : d.exponent = d'.exponent := by
    by_contra hne
    have hle := h.exponent_le d hreads
    obtain ⟨k, hk⟩ : ∃ k : Nat, d'.exponent = d.exponent + (k + 1 : Nat) :=
      ⟨(d'.exponent - d.exponent).toNat - 1, by omega⟩
    rw [rational, rational, hk, zpow_add₀ (by norm_num), zpow_natCast, mul_left_comm, mul_comm,
      mul_right_inj' (zpow_ne_zero _ (by norm_num))] at heq
    have hcoefficient : d.coefficient = d'.coefficient * 10 ^ (k + 1) := by exact_mod_cast heq
    exact hlast (hcoefficient ▸ Dvd.dvd.mul_left (dvd_pow_self 10 (Nat.succ_ne_zero k)) _)
  exact ⟨hreads, fun d'' hd'' => hexponent ▸ h.exponent_le d'' hd'', fun d'' hd'' he => by
    rw [heq]
    exact h.nearest d'' hd'' (he.trans hexponent)⟩

-- ============================================================= fewest digits

/-- A decimal that ends below the leading place of the coarsest one is below
its leading power of ten, which then is the coarsest decimal's only digit. -/
theorem Coarsest.readsAs_tenPower (hrank : rank < rankCount) (h : Coarsest rank d)
    (hd : HasDigits d s) (hreads : readsAs rank d' = true) (hd' : HasDigits d' s')
    (hbelow : d'.exponent + s' < d.exponent + s) :
    s = 1 ∧ readsAs rank (tenPower d.exponent) = true := by
  have hpower : readsAs rank (tenPower (d.exponent + s - 1)) = true := by
    have hself := h.reads
    rw [readsAs_iff_rank hrank] at hreads hself ⊢
    refine rank_between hreads hself ?_ ?_
    · rw [rational_tenPower]
      exact hd'.lt.le.trans (zpow_le_zpow_right₀ (by norm_num) (by omega))
    · rw [rational_tenPower]
      exact hd.le
  have hle : d.exponent + s - 1 ≤ d.exponent := h.exponent_le _ hpower
  have hpos := hd.pos
  have hone : s = 1 := by omega
  rw [hone, Nat.cast_one, Int.add_sub_cancel] at hpower
  exact ⟨hone, hpower⟩

/-- No decimal that reads as the value has fewer digits. -/
theorem Coarsest.digits_le (hrank : rank < rankCount) (h : Coarsest rank d) (hd : HasDigits d s)
    (hreads : readsAs rank d' = true) (hd' : HasDigits d' s') : s ≤ s' := by
  by_contra hfewer
  have hexponent := h.exponent_le d' hreads
  obtain ⟨hone, -⟩ := h.readsAs_tenPower hrank hd hreads hd' (by omega)
  have hpos := hd'.pos
  omega

-- ============================================================ one digit each

/-- What reads as a value is at most half a step away from it. -/
theorem abs_sub_units_le (d : Decimal) :
    |d.rational * unitsOfOne - units d.rank| ≤ 2 ^ scale d.rank / 2 := by
  have hone := unitsOfOne_rat_pos
  have hmiddle (r : Nat) : middle r * unitsOfOne = units r + 2 ^ scale r / 2 := by
    have htwice := two_mul_middle r
    rw [units_succ, Nat.cast_add, Nat.cast_add, Nat.cast_pow, Nat.cast_ofNat] at htwice
    linarith
  refine abs_sub_le_iff.2 ⟨?_, ?_⟩
  · have hle := mul_le_mul_of_nonneg_right (rational_le_middle (Nat.le_refl d.rank)) hone.le
    rw [hmiddle] at hle
    linarith
  · -- below, the step to the next value is no wider than the one above
    rcases Nat.eq_zero_or_pos d.rank with hzero | hpos
    · have hvalue : 0 ≤ d.rational * unitsOfOne := mul_nonneg d.rational_nonneg hone.le
      have hstep : (0 : ℚ) ≤ 2 ^ scale 0 / 2 := div_nonneg (pow_nonneg two_pos.le _) two_pos.le
      rw [hzero, units_zero, Nat.cast_zero]
      linarith
    · obtain ⟨r, hr⟩ : ∃ r, d.rank = r + 1 := ⟨d.rank - 1, by omega⟩
      have hbelow : r < d.rank := by omega
      have hge := mul_le_mul_of_nonneg_right (middle_le_rational hbelow) hone.le
      have hscale : scale r ≤ scale (r + 1) := by
        unfold scale
        omega
      have hstep : (2 : ℚ) ^ scale r ≤ 2 ^ scale (r + 1) :=
        pow_le_pow_right₀ (by norm_num) hscale
      rw [hmiddle] at hge
      rw [hr, units_succ, Nat.cast_add, Nat.cast_pow, Nat.cast_ofNat]
      linarith

/-- Nine steps and ten of them are near the same value only where it is less than
ten units, and a unit is the spacing. -/
theorem units_eq_rank {x : ℚ}
    (hnine : (units rank : ℚ) - 2 ^ scale rank / 2 ≤ 9 * x)
    (hten : 10 * x ≤ units rank + 2 ^ scale rank / 2) : scale rank = 0 ∧ units rank = rank := by
  have hcoarse : units rank < 10 * 2 ^ scale rank := by
    have hstep : (0 : ℚ) < 2 ^ scale rank := by positivity
    have hcast : (units rank : ℚ) < ((10 * 2 ^ scale rank : Nat) : ℚ) := by
      rw [Nat.cast_mul, Nat.cast_pow, Nat.cast_ofNat, Nat.cast_ofNat]
      linarith
    exact Nat.cast_lt.1 hcast
  have hsignificand : significand rank < 10 := Nat.lt_of_mul_lt_mul_right hcoarse
  have hscale : scale rank = 0 := by
    by_contra hne
    have := le_significand hne
    omega
  have hparts := scale_mul_add_significand rank
  rw [hscale, Nat.zero_mul, Nat.zero_add] at hparts
  refine ⟨hscale, ?_⟩
  rw [units, hscale, Nat.pow_zero, Nat.mul_one, hparts]

/-- A power of ten that is about a fifth of a unit. -/
theorem ten_pow_units : 1 / 5 < (10 : ℚ) ^ (-324 : ℤ) * unitsOfOne
    ∧ (10 : ℚ) ^ (-324 : ℤ) * unitsOfOne < 21 / 100 := by
  have hquotient : (10 : ℚ) ^ (-324 : ℤ) * unitsOfOne = unitsOfOne / ((10 ^ 324 : Nat) : ℚ) := by
    rw [zpow_neg, zpow_ofNat, Nat.cast_pow, Nat.cast_ofNat, inv_mul_eq_div]
  have hpos : (0 : ℚ) < ((10 ^ 324 : Nat) : ℚ) := Nat.cast_pos.2 (ten_pow_pos 324)
  have hfifth : 1 * 10 ^ 324 < unitsOfOne * 5 := by decide +kernel
  have hmore : unitsOfOne * 100 < 21 * 10 ^ 324 := by decide +kernel
  rw [hquotient, div_lt_div_iff₀ (by norm_num) hpos, div_lt_div_iff₀ hpos (by norm_num)]
  exact ⟨by exact_mod_cast hfifth, by exact_mod_cast hmore⟩

/-- It is the only power of ten between an eighteenth of a unit and a whole
one. -/
theorem eq_of_ten_pow_units {k : Int} (hlow : 1 / 18 ≤ (10 : ℚ) ^ k * unitsOfOne)
    (hhigh : (10 : ℚ) ^ k * unitsOfOne ≤ 1) : k = -324 := by
  have hone := unitsOfOne_rat_pos
  obtain ⟨hfifth, hmore⟩ := ten_pow_units
  have hten : (10 : ℚ) ≠ 0 := by norm_num
  apply Int.le_antisymm
  · by_contra hlt
    have hpower : (10 : ℚ) ^ (-324 + 1 : ℤ) ≤ 10 ^ k := zpow_le_zpow_right₀ (by norm_num) (by omega)
    have hmono := mul_le_mul_of_nonneg_right hpower hone.le
    rw [zpow_add_one₀ hten, mul_right_comm] at hmono
    linarith
  · by_contra hlt
    have hpower : (10 : ℚ) ^ (k + 1) ≤ 10 ^ (-324 : ℤ) :=
      zpow_le_zpow_right₀ (by norm_num) (by omega)
    have hmono := mul_le_mul_of_nonneg_right hpower hone.le
    rw [zpow_add_one₀ hten, mul_right_comm] at hmono
    linarith

/-- Where a power of ten and the nine below it both read as the value, the value
is no nearer to the nine. -/
theorem nine_add_ten_le {k : Int} (hnine : (⟨9, k - 1⟩ : Decimal).rank = rank)
    (hten : (tenPower k).rank = rank) (hpos : 0 < rank) :
    (⟨9, k - 1⟩ : Decimal).rational + (tenPower k).rational ≤ 2 * size rank := by
  have hone := unitsOfOne_rat_pos
  have hninevalue : (⟨9, k - 1⟩ : Decimal).rational = 9 * 10 ^ (k - 1) := rfl
  have htenvalue : (tenPower k).rational = 10 * 10 ^ (k - 1) := by
    rw [rational_tenPower, mul_comm, ← zpow_add_one₀ (by norm_num), Int.sub_add_cancel]
  have hlow := (abs_le.1 (abs_sub_units_le ⟨9, k - 1⟩)).1
  have hhigh := (abs_le.1 (abs_sub_units_le (tenPower k))).2
  rw [hnine, hninevalue, mul_assoc] at hlow
  rw [hten, htenvalue, mul_assoc] at hhigh
  -- nine and ten steps so close together are among the subnormal values
  obtain ⟨hscale, hunits⟩ := @units_eq_rank rank (10 ^ (k - 1) * unitsOfOne) (by linarith)
    (by linarith)
  rw [hscale, hunits, pow_zero] at hlow hhigh
  have hrank : (1 : ℚ) ≤ rank := by exact_mod_cast hpos
  obtain ⟨hfifth, hmore⟩ := ten_pow_units
  rw [← eq_of_ten_pow_units (k := k - 1) (by linarith) (by linarith)] at hfifth hmore
  have htwo : (2 : ℚ) ≤ rank := by
    have hlt : ((1 : Nat) : ℚ) < rank := by
      rw [Nat.cast_one]
      linarith
    exact_mod_cast Nat.cast_lt.1 hlt
  rw [hninevalue, htenvalue, size, hunits, ← mul_div_assoc, le_div_iff₀ hone]
  linarith

-- =================================================================== nearest

/-- No decimal of as many digits that reads as the value is nearer. -/
theorem Coarsest.dist_le (hrank : rank < rankCount) (hpos : 0 < rank) (h : Coarsest rank d)
    (hd : HasDigits d s) (hreads : readsAs rank d' = true) (hd' : HasDigits d' s) :
    |d.rational - size rank| ≤ |d'.rational - size rank| := by
  rcases Int.lt_or_eq_of_le (h.exponent_le d' hreads) with hfiner | hsame
  · -- one digit each, and a power of ten in between
    obtain ⟨rfl, hten⟩ := h.readsAs_tenPower hrank hd hreads hd' (by omega)
    have hnearest := h.nearest (tenPower d.exponent) hten rfl
    have hnine : d'.rational ≤ (⟨9, d.exponent - 1⟩ : Decimal).rational := by
      have hdigit : (d'.coefficient : ℚ) ≤ 9 := by exact_mod_cast Nat.le_of_lt_succ hd'.2
      exact mul_le_mul hdigit (zpow_le_zpow_right₀ (by norm_num) (Int.le_sub_one_of_lt hfiner))
        (zpow_nonneg (by norm_num) _) (by norm_num)
    have hbelow : (⟨9, d.exponent - 1⟩ : Decimal).rational ≤ (tenPower d.exponent).rational := by
      rw [rational_tenPower, ← Int.sub_add_cancel d.exponent 1, zpow_add_one₀ (by norm_num),
        mul_comm, Int.sub_add_cancel]
      exact mul_le_mul_of_nonneg_right (by norm_num) (zpow_nonneg (by norm_num) _)
    rw [readsAs_iff_rank hrank] at hreads hten
    have hsum := nine_add_ten_le (rank_between hreads hten hnine hbelow) hten hpos
    refine hnearest.trans ?_
    rw [abs_sub_comm d'.rational, abs_of_nonneg (a := size rank - d'.rational) (by linarith)]
    exact abs_le.2 ⟨by linarith, by linarith⟩
  · exact h.nearest d' hreads hsame

end Calculator.Decimal
