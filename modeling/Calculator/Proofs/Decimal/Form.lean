/-
The plain form of the shortest decimal.

Its whole part is a numeral, and a numeral begins with zero only if it is the
numeral of zero. Its fraction has lost the zeros at its end. There is none
where the decimal is whole, which it is just where the number is: a whole
number is on the grid of the ones, so the coarsest decimal is on that grid or
on a coarser one. The other way round a whole decimal reads as a whole number,
in the range because nothing is rounded there, and past it because there every
number is whole.
-/
import Calculator.Proofs.Numeral.Significance

namespace Calculator

namespace Decimal

open Binary64 Numeral

-- ============================================================== the whole part

/-- The digits of a number other than zero have no leading zero. -/
theorem head?_toDigits {n : Nat} (h : 0 < n) : (Nat.toDigits 10 n).head? ≠ some '0' := by
  induction n using Nat.strongRecOn with
  | ind n ih =>
      rcases Nat.lt_or_ge n 10 with hlt | hge
      · rw [Nat.toDigits_of_lt_base hlt, List.head?_singleton]
        exact fun hzero => h.ne' (Nat.digitChar_eq_zero.1 (Option.some.inj hzero))
      · have hfront : (Nat.toDigits 10 n).head? = (Nat.toDigits 10 (n / 10)).head? := by
          rw [Nat.toDigits_of_base_le (by decide) hge,
            List.head?_append_of_ne_nil _ Nat.toDigits_ne_nil]
        rw [hfront]
        exact ih (n / 10) (by omega) (by omega)

/-- In front of the point stands a zero alone or no leading zero. -/
theorem isWhole_wholeDigits (d : Decimal) : IsWhole d.wholeDigits := by
  refine ⟨Nat.toDigits_ne_nil, fun hhead => ?_⟩
  have hzero : d.steps / 10 ^ d.places = 0 :=
    Nat.eq_zero_of_not_pos fun hpos => head?_toDigits hpos hhead
  rw [wholeDigits, hzero]
  rfl

-- ================================================================ the fraction

/-- The value of a decimal is its steps over the step that its last place
counts. -/
theorem rational_eq_steps_div (d : Decimal) : d.rational = d.steps / 10 ^ d.places := by
  have hten : (10 : ℚ) ≠ 0 := by norm_num
  have hsplit : (10 : ℚ) ^ d.exponent * 10 ^ d.places = 10 ^ d.exponent.toNat := by
    rw [← zpow_natCast, ← zpow_natCast, ← zpow_add₀ hten, places]
    congr 1
    omega
  rw [rational, steps, eq_div_iff (pow_ne_zero _ hten), mul_assoc, hsplit, Nat.cast_mul,
    Nat.cast_pow, Nat.cast_ofNat]

/-- Behind the point stand digits, the last of them no zero. -/
theorem isFraction_of_mem_fraction {d : Decimal} {digits : List Char}
    (h : d.fraction = some digits) : IsFraction digits := by
  unfold fraction at h
  split at h
  case isTrue => cases h
  case isFalse hne =>
    cases h
    exact ⟨hne, getLast?_dropTrailingZeros _⟩

/-- What the last place does not divide leaves a digit. -/
theorem fractionDigits_eq_nil_iff {d : Decimal} :
    d.fractionDigits = [] ↔ d.steps % 10 ^ d.places = 0 := by
  obtain ⟨k, -, hvalue⟩ := shift_fractionDigits d
  constructor
  · intro hnone
    rw [← hvalue, hnone, Nat.ofDigitChars_nil, Nat.zero_mul]
  · intro hzero
    by_contra hne
    rw [hzero] at hvalue
    have hdigits := (Nat.mul_eq_zero.1 hvalue).resolve_right (ten_pow_pos k).ne'
    refine not_ten_dvd_ofDigitChars (fun c hc => isDigit_of_mem_fractionDigits hc) hne
      (getLast?_dropTrailingZeros _) ?_
    rw [hdigits]
    exact Nat.dvd_zero 10

/-- A decimal has no fraction if it is whole, and only then. -/
theorem fraction_eq_none_iff {d : Decimal} : d.fraction = none ↔ ∃ n : Nat, d.rational = n := by
  have hfraction : d.fraction = none ↔ d.fractionDigits = [] := by
    unfold fraction
    split
    case isTrue h => exact iff_of_true rfl h
    case isFalse h => exact iff_of_false (Option.some_ne_none _) h
  rw [hfraction, fractionDigits_eq_nil_iff, ← Nat.dvd_iff_mod_eq_zero, rational_eq_steps_div]
  refine exists_congr fun n => ?_
  rw [div_eq_iff (pow_ne_zero _ (by norm_num)), Nat.mul_comm, ← Nat.cast_inj (R := ℚ),
    Nat.cast_mul, Nat.cast_pow, Nat.cast_ofNat]

-- ================================================================ whole numbers

variable {rank : Nat}

/-- A whole number as a decimal. -/
def ofNat (n : Nat) : Decimal := ⟨n, 0⟩

theorem rational_ofNat (n : Nat) : (ofNat n).rational = n := by
  rw [rational, ofNat, zpow_zero, mul_one]

/-- A number is a multiple of the spacing around it. -/
theorem two_pow_dvd_units {k : Nat} (h : k ≤ scale rank) : 2 ^ k ∣ units rank :=
  Nat.dvd_mul_left_of_dvd (Nat.pow_dvd_pow 2 h) _

/-- From this rank on every number is whole. -/
theorem exists_size_of_le (h : nearestRank (2 ^ 53 * unitsOfOne) 1 ≤ rank) :
    ∃ n : Nat, size rank = n := by
  have hscale : 1074 ≤ scale rank := by
    have hstart : 1074 ≤ scale (nearestRank (2 ^ 53 * unitsOfOne) 1) := by decide +kernel
    refine hstart.trans ?_
    unfold scale
    omega
  have hunits : unitsOfOne = 2 ^ 1074 := by rw [unitsOfOne]
  have hdvd : unitsOfOne ∣ units rank := hunits ▸ two_pow_dvd_units hscale
  obtain ⟨n, hn⟩ := hdvd
  refine ⟨n, ?_⟩
  rw [size, hn, Nat.cast_mul, mul_div_cancel_left₀ _ unitsOfOne_rat_pos.ne']

/-- What a whole number reads as is whole. -/
theorem exists_size_of_rank_ofNat (n : Nat) : ∃ m : Nat, size (ofNat n).rank = m := by
  have hrank : (ofNat n).rank = nearestRank (n * unitsOfOne) 1 := by
    have hsteps : (ofNat n).steps = n := Nat.mul_one n
    rw [Decimal.rank, numerator_eq_steps, hsteps]
    rfl
  rw [hrank]
  rcases Nat.le_total n (2 ^ 53) with hle | hge
  · refine ⟨n, ?_⟩
    rw [size, units_nearestRank_of_le hle, Nat.cast_mul,
      mul_div_cancel_right₀ _ unitsOfOne_rat_pos.ne']
  · exact exists_size_of_le (nearestRank_mono Nat.one_pos (Nat.mul_le_mul_right _ hge))

/-- The coarsest decimal is whole exactly if the number is. -/
theorem Coarsest.whole_iff (hrank : rank < rankCount) {d : Decimal} (h : Coarsest rank d) :
    (∃ n : Nat, d.rational = n) ↔ ∃ n : Nat, size rank = n := by
  constructor
  · rintro ⟨n, hn⟩
    have hreads := readsAs_congr hrank ((rational_ofNat n).trans hn.symm) h.reads
    rw [readsAs_iff_rank hrank] at hreads
    rw [← hreads]
    exact exists_size_of_rank_ofNat n
  · rintro ⟨n, hn⟩
    have hsame : (ofNat n).rational = (onGrid 0 (tinyUnits rank)).rational := by
      rw [rational_ofNat, rational_finest, hn]
    have hexponent : 0 ≤ d.exponent :=
      h.exponent_le _ (readsAs_congr hrank hsame (readsAs_finest rank))
    obtain ⟨e, he⟩ := Int.eq_ofNat_of_zero_le hexponent
    refine ⟨d.coefficient * 10 ^ e, ?_⟩
    rw [rational, he, zpow_natCast, Nat.cast_mul, Nat.cast_pow, Nat.cast_ofNat]

end Decimal

end Calculator
