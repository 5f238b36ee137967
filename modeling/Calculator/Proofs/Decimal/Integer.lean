/-
The shortest decimal of an integer is the integer.

Every grid from the ones upwards consists of integers. An integer in the range
that reads as another one in the range is the other one, since both are values
of the list. Past the range only half of the integers are, but a decimal on
the grid of the tens or a coarser one is even, and the even ones next to the
range are values still (`eq_of_nearestRank_eq`). So a grid above the ones
holds no decimal that reads as the integer unless it holds the integer itself.
The grid of the ones holds it, and the search goes no further.

A decimal without places is written by the digits of its steps.
-/
import Calculator.Proofs.Binary64.Integer
import Calculator.Proofs.Decimal.Plain
import Calculator.Proofs.Decimal.Shortest

namespace Calculator

/-- Integers that round to one value are equal, if one of them is in the range
and the other in the range or even. -/
theorem Binary64.eq_of_nearestRank_eq {m n : Nat} (hn : n ≤ 2 ^ 53) (hm : m ≤ 2 ^ 53 ∨ 2 ∣ m)
    (h : nearestRank (m * unitsOfOne) 1 = nearestRank (n * unitsOfOne) 1) : m = n := by
  have hunits : ∀ {k}, nearestRank (k * unitsOfOne) 1 = nearestRank (n * unitsOfOne) 1 →
      units (nearestRank (k * unitsOfOne) 1) = k * unitsOfOne → k = n := by
    intro k hk hexact
    rw [hk, units_nearestRank_of_le hn] at hexact
    exact (Nat.mul_right_cancel unitsOfOne_pos hexact).symm
  by_cases hbelow : m < 2 ^ 54
  · refine hunits h ?_
    rcases hm with hle | heven
    · exact units_nearestRank_of_le hle
    · exact units_nearestRank_integer (e := 1) hbelow heven
  · -- between `n` and `m` lies the even integer next to the range
    have hnext : nearestRank ((2 ^ 53 + 2) * unitsOfOne) 1 = nearestRank (n * unitsOfOne) 1 := by
      apply Nat.le_antisymm
      · rw [← h]
        exact nearestRank_mono Nat.one_pos (Nat.mul_le_mul_right _ (by omega))
      · exact nearestRank_mono Nat.one_pos (Nat.mul_le_mul_right _ (by omega))
    have := hunits hnext (units_nearestRank_integer (e := 1) (by decide) (by decide))
    omega

namespace Decimal

open Binary64

-- ============================================================ without places

/-- A decimal without places is written as a whole number. -/
theorem plain_of_places_eq_zero {d : Decimal} (h : d.places = 0) :
    d.plain = Nat.toDigits 10 d.steps := by
  have hfraction : d.fractionDigits = [] := by
    rw [fractionDigits, h, Nat.pow_zero, Nat.mod_one]
    rfl
  rw [plain, hfraction, wholeDigits, h, Nat.pow_zero, Nat.div_one]

theorem exponent_onGrid (i count : Nat) : (onGrid (1074 + i) count).exponent = i := by
  show ((1074 + i : Nat) : Int) - 1074 = i
  omega

/-- From the grid of the ones on there are no places. -/
theorem places_onGrid (i count : Nat) : (onGrid (1074 + i) count).places = 0 := by
  rw [places, exponent_onGrid]
  omega

theorem steps_onGrid (i count : Nat) : (onGrid (1074 + i) count).steps = count * 10 ^ i := by
  rw [steps, exponent_onGrid, Int.toNat_natCast]
  rfl

-- =================================================================== reading

variable {rank n : Nat}

/-- The numerator counts the steps in the units of binary64. -/
theorem numerator_eq_steps (d : Decimal) : d.numerator = d.steps * unitsOfOne := by
  rw [numerator, steps, unitsOfOne]

/-- A decimal without places reads as the whole number of its steps does. -/
theorem readsAs_iff_of_places (hrank : rank < rankCount) {d : Decimal} (h : d.places = 0) :
    readsAs rank d = true ↔ nearestRank (d.steps * unitsOfOne) 1 = rank := by
  have hone : d.denominator = 1 := by
    rw [denominator, ← places, h, Nat.pow_zero]
  rw [readsAs_iff, toBinary64_eq_round, Binary64.round, hone, numerator_eq_steps]
  constructor
  · exact eq_of_ofRank_eq hrank
  · intro hreads
    rw [hreads]

/-- The rank of an integer in the range. -/
theorem rank_eq_nearestRank (hunits : units rank = n * unitsOfOne) :
    rank = nearestRank (n * unitsOfOne) 1 := by
  rw [← hunits, nearestRank_units]

/-- A decimal without places that reads as an integer in the range is the
integer, if it is in the range or even. -/
theorem steps_eq_of_readsAs (hrank : rank < rankCount) (hunits : units rank = n * unitsOfOne)
    (hn : n ≤ 2 ^ 53) {d : Decimal} (hplaces : d.places = 0) (hsteps : d.steps ≤ 2 ^ 53 ∨ 2 ∣ d.steps)
    (hreads : readsAs rank d = true) : d.steps = n := by
  have hd := (readsAs_iff_of_places hrank hplaces).1 hreads
  exact eq_of_nearestRank_eq hn hsteps (hd.trans (rank_eq_nearestRank hunits))

-- ================================================================ the search

/-- A grid on which the number lies gives the number. -/
theorem nearestOnGrid?_of_mod_eq_zero {j : Nat} (hmod : tinyUnits rank % 10 ^ j = 0)
    (hreads : readsAs rank (onGrid j (tinyUnits rank / 10 ^ j)) = true) :
    nearestOnGrid? rank j = some (onGrid j (tinyUnits rank / 10 ^ j)) := by
  unfold nearestOnGrid?
  refine if_pos ⟨hreads, fun _ => ?_⟩
  rw [hmod]
  exact ten_pow_pos j

/-- What the search finds lies on its grid. -/
theorem exists_of_nearestOnGrid? {j : Nat} {d : Decimal} (h : nearestOnGrid? rank j = some d) :
    ∃ count, d = onGrid j count := by
  unfold nearestOnGrid? at h
  dsimp only at h
  split at h
  case isTrue =>
    cases h
    exact ⟨_, rfl⟩
  case isFalse =>
    split at h
    case isTrue =>
      cases h
      exact ⟨_, rfl⟩
    case isFalse => cases h

/-- An integer lies on the grid of the ones. -/
theorem tinyUnits_integer (hunits : units rank = n * unitsOfOne) :
    tinyUnits rank = n * 10 ^ 1074 := by
  rw [tinyUnits, hunits, unitsOfOne, Nat.mul_assoc, Nat.mul_comm (2 ^ 1074), ← ten_pow]

/-- There the search finds the integer itself. -/
theorem nearestOnGrid?_ones (hrank : rank < rankCount) (hunits : units rank = n * unitsOfOne) :
    nearestOnGrid? rank 1074 = some (onGrid 1074 n) := by
  have htiny := tinyUnits_integer hunits
  have hmod : tinyUnits rank % 10 ^ 1074 = 0 := by rw [htiny, Nat.mul_mod_left]
  have hdiv : tinyUnits rank / 10 ^ 1074 = n := by
    rw [htiny, Nat.mul_div_cancel _ (ten_pow_pos 1074)]
  have hreads : readsAs rank (onGrid 1074 n) = true := by
    rw [readsAs_iff_of_places hrank (places_onGrid 0 n), steps_onGrid 0 n, Nat.pow_zero,
      Nat.mul_one]
    exact (rank_eq_nearestRank hunits).symm
  rw [nearestOnGrid?_of_mod_eq_zero hmod (hdiv.symm ▸ hreads), hdiv]

/-- From the grid of the ones or a coarser one the search ends at the
integer. -/
theorem shortestFrom_integer (hrank : rank < rankCount) (hunits : units rank = n * unitsOfOne)
    (hn : n ≤ 2 ^ 53) (i : Nat) :
    (shortestFrom rank (1074 + i)).places = 0 ∧ (shortestFrom rank (1074 + i)).steps = n := by
  induction i with
  | zero =>
      have hones : shortestFrom rank (1073 + 1) = onGrid 1074 n := by
        rw [shortestFrom, nearestOnGrid?_ones hrank hunits, Option.getD_some]
      show (shortestFrom rank (1073 + 1)).places = 0 ∧ (shortestFrom rank (1073 + 1)).steps = n
      rw [hones, steps_onGrid 0 n, Nat.pow_zero, Nat.mul_one]
      exact ⟨places_onGrid 0 n, rfl⟩
  | succ i ih =>
      show (shortestFrom rank (1074 + i + 1)).places = 0
        ∧ (shortestFrom rank (1074 + i + 1)).steps = n
      rw [shortestFrom]
      cases hgrid : nearestOnGrid? rank (1074 + i + 1) with
      | none => exact ih
      | some d =>
          obtain ⟨count, rfl⟩ := exists_of_nearestOnGrid? hgrid
          have hplaces := places_onGrid (i + 1) count
          -- on a coarser grid the steps are even, so no other integer reads as this one
          have heven : 2 ∣ (onGrid (1074 + (i + 1)) count).steps := by
            rw [steps_onGrid, Nat.pow_succ, ← Nat.mul_assoc]
            exact Nat.dvd_mul_left_of_dvd (by decide) _
          exact ⟨hplaces, steps_eq_of_readsAs hrank hunits hn hplaces (Or.inr heven)
            (readsAs_of_nearestOnGrid? hgrid)⟩

/-- The search begins on the grid of the ones or a coarser one. -/
theorem exists_start_integer (hunits : units rank = n * unitsOfOne) (hpos : 0 < n) :
    ∃ i, (tinyUnits rank).log2 / 3 + 1 = 1074 + i := by
  have hlog (k : Nat) : 3 * k ≤ (n * 10 ^ k).log2 := by
    refine (Nat.le_log2 (Nat.ne_of_gt (Nat.mul_pos hpos (ten_pow_pos k)))).2 ?_
    rw [Nat.pow_mul]
    exact Nat.le_trans (Nat.pow_le_pow_left (by decide) k) (Nat.le_mul_of_pos_left _ hpos)
  have hfar := hlog 1074
  rw [← tinyUnits_integer hunits] at hfar
  exact ⟨(tinyUnits rank).log2 / 3 + 1 - 1074, by omega⟩

/-- The shortest decimal of an integer is written as the numeral of the
integer. -/
theorem plain_shortest_integer (hrank : rank < rankCount) (hunits : units rank = n * unitsOfOne)
    (hpos : 0 < n) (hn : n ≤ 2 ^ 53) : (shortest rank).plain = Nat.toDigits 10 n := by
  obtain ⟨i, hstart⟩ := exists_start_integer hunits hpos
  obtain ⟨hplaces, hsteps⟩ := shortestFrom_integer hrank hunits hn i
  rw [shortest, hstart, plain_of_places_eq_zero hplaces, hsteps]

end Decimal

end Calculator
