/-
What the search for the shortest decimal finds.

On a grid only the two neighbours of the value are tried, and that is enough:
intervals have no holes, so with any other decimal of the grid the neighbour
on its side lies in the interval too, and it is nearer. A grid that is passed
over has no decimal that reads back (`not_readsAs_of_nearestOnGrid?`), and on
the grid where the search stops its decimal is a nearest one
(`dist_le_of_nearestOnGrid?`). Nothing coarser than the first grid needs to be
tried, because there a decimal is zero or far more than twice the value.
-/
import Calculator.Proofs.Decimal.Integer
import Calculator.Proofs.Decimal.Interval

namespace Calculator.Decimal

open Binary64

-- ==================================================================== grids

/-- The least step of all grids. -/
def tiny : ℚ := 10 ^ (-1074 : ℤ)

theorem tiny_pos : 0 < tiny := zpow_pos (by norm_num) _

/-- A decimal on a grid is a whole number of the tiniest steps. -/
theorem rational_onGrid (j count : Nat) :
    (onGrid j count).rational = ((count * 10 ^ j : Nat) : ℚ) * tiny := by
  rw [rational, onGrid, tiny, sub_eq_add_neg, zpow_add₀ (by norm_num), zpow_natCast, Nat.cast_mul,
    Nat.cast_pow, Nat.cast_ofNat, mul_assoc]

/-- The value is a whole number of least steps. -/
theorem size_eq_tinyUnits (rank : Nat) : size rank = tinyUnits rank * tiny := by
  have hten : ((5 ^ 1074 : Nat) : ℚ) * unitsOfOne = 10 ^ 1074 := by
    rw [unitsOfOne, ← Nat.cast_mul, ← ten_pow, Nat.cast_pow, Nat.cast_ofNat]
  have hinverse : tiny * 10 ^ 1074 = 1 := by
    rw [tiny, zpow_neg, zpow_ofNat, inv_mul_cancel₀ (pow_ne_zero 1074 (by norm_num))]
  rw [size, div_eq_iff unitsOfOne_rat_pos.ne', tinyUnits, Nat.cast_mul]
  calc (units rank : ℚ)
      = units rank * (tiny * 10 ^ 1074) := by rw [hinverse, mul_one]
    _ = units rank * (5 ^ 1074 : Nat) * tiny * unitsOfOne := by
        rw [← hten]
        ring

/-- Decimals on two grids are compared by their counts of these steps. -/
theorem onGrid_le_onGrid {i j count count' : Nat} :
    (onGrid i count).rational ≤ (onGrid j count').rational ↔ count * 10 ^ i ≤ count' * 10 ^ j := by
  rw [rational_onGrid, rational_onGrid, mul_le_mul_iff_left₀ tiny_pos, Nat.cast_le]

/-- The value itself is a decimal of the finest grid. -/
theorem rational_finest (rank : Nat) : (onGrid 0 (tinyUnits rank)).rational = size rank := by
  rw [rational_onGrid, Nat.pow_zero, Nat.mul_one, size_eq_tinyUnits]

-- ============================================================ the neighbours

variable {rank j : Nat}

/-- The last decimal of a grid that is not above the value. -/
def below (rank j : Nat) : Decimal := onGrid j (tinyUnits rank / 10 ^ j)

/-- The next decimal of the grid. -/
def above (rank j : Nat) : Decimal := onGrid j (tinyUnits rank / 10 ^ j + 1)

/-- The neighbour below on a grid is not above the value. -/
theorem rational_below_le (rank j : Nat) : (below rank j).rational ≤ size rank := by
  rw [← rational_finest, below, onGrid_le_onGrid, Nat.pow_zero, Nat.mul_one]
  exact Nat.div_mul_le_self _ _

theorem size_le_rational_above (rank j : Nat) : size rank ≤ (above rank j).rational := by
  rw [← rational_finest, above, onGrid_le_onGrid, Nat.pow_zero, Nat.mul_one]
  exact Nat.le_of_lt (Nat.lt_mul_of_div_lt (Nat.lt_succ_self _) (ten_pow_pos j))

/-- A decimal of the grid lies on one side of both neighbours. -/
theorem le_below_or_above_le (rank j count : Nat) :
    (onGrid j count).rational ≤ (below rank j).rational
      ∨ (above rank j).rational ≤ (onGrid j count).rational := by
  rw [below, above, onGrid_le_onGrid, onGrid_le_onGrid]
  rcases Nat.lt_or_ge (tinyUnits rank / 10 ^ j) count with hlt | hle
  · exact Or.inr (Nat.mul_le_mul_right _ hlt)
  · exact Or.inl (Nat.mul_le_mul_right _ hle)

/-- If a decimal of the grid reads back, so does the neighbour on its side. -/
theorem readsAs_neighbour (hrank : rank < rankCount) {count : Nat}
    (h : readsAs rank (onGrid j count) = true) :
    (onGrid j count).rational ≤ (below rank j).rational ∧ readsAs rank (below rank j) = true
      ∨ (above rank j).rational ≤ (onGrid j count).rational ∧ readsAs rank (above rank j) = true := by
  have hvalue := (readsAs_iff_rank hrank).1 (readsAs_finest rank)
  rw [readsAs_iff_rank hrank] at h ⊢
  rw [readsAs_iff_rank hrank]
  refine (le_below_or_above_le rank j count).imp (fun hle => ⟨hle, ?_⟩) fun hle => ⟨hle, ?_⟩
  · refine rank_between h hvalue hle ?_
    rw [rational_finest]
    exact rational_below_le rank j
  · refine rank_between hvalue h ?_ hle
    rw [rational_finest]
    exact size_le_rational_above rank j

-- ============================================================== on one grid

/-- The value is above its lower neighbour by the rest of the division. -/
theorem dist_below (rank j : Nat) :
    |(below rank j).rational - size rank| = ((tinyUnits rank % 10 ^ j : Nat) : ℚ) * tiny := by
  have hsplit : (tinyUnits rank : ℚ)
      = ((tinyUnits rank / 10 ^ j * 10 ^ j : Nat) : ℚ) + ((tinyUnits rank % 10 ^ j : Nat) : ℚ) := by
    rw [← Nat.cast_add, Nat.div_add_mod']
  rw [abs_sub_comm, abs_of_nonneg (sub_nonneg.2 (rational_below_le rank j)), below,
    rational_onGrid, size_eq_tinyUnits, hsplit, add_mul, add_sub_cancel_left]

theorem dist_above (rank j : Nat) :
    |(above rank j).rational - size rank|
      = ((10 ^ j - tinyUnits rank % 10 ^ j : Nat) : ℚ) * tiny := by
  have hsplit (n : Nat) : (((n / 10 ^ j + 1) * 10 ^ j : Nat) : ℚ)
      = ((10 ^ j - n % 10 ^ j : Nat) : ℚ) + n := by
    have hdiv := Nat.div_add_mod' n (10 ^ j)
    have hmod := Nat.mod_lt n (ten_pow_pos j)
    rw [← Nat.cast_add, Nat.succ_mul]
    congr 1
    omega
  rw [abs_of_nonneg (sub_nonneg.2 (size_le_rational_above rank j)), above, rational_onGrid,
    size_eq_tinyUnits, hsplit, add_mul, add_sub_cancel_right]

/-- The decimal taken from a grid: a neighbour that reads back, and no farther
from the value than the other one if that reads back too. -/
inductive Taken (rank j : Nat) : Option Decimal → Prop
  | below (hreads : readsAs rank (below rank j) = true)
    (hnear : readsAs rank (above rank j) = true →
      |(below rank j).rational - size rank| ≤ |(above rank j).rational - size rank|) :
    Taken rank j (some (below rank j))
  | above (hreads : readsAs rank (above rank j) = true)
    (hnear : readsAs rank (below rank j) = true →
      |(above rank j).rational - size rank| ≤ |(below rank j).rational - size rank|) :
    Taken rank j (some (above rank j))
  | none (hbelow : ¬ readsAs rank (below rank j) = true)
    (habove : ¬ readsAs rank (above rank j) = true) : Taken rank j none

/-- These are all that the search on one grid can come to. -/
theorem taken (rank j : Nat) : Taken rank j (nearestOnGrid? rank j) := by
  have hmod := Nat.mod_lt (tinyUnits rank) (ten_pow_pos j)
  have hcompare {m n : Nat} (h : m ≤ n) : (m : ℚ) * tiny ≤ n * tiny :=
    mul_le_mul_of_nonneg_right (Nat.cast_le.2 h) tiny_pos.le
  unfold nearestOnGrid?
  rw [← below, ← above]
  dsimp only
  split
  case isTrue h =>
    refine Taken.below h.1 fun habove => ?_
    rw [dist_below, dist_above]
    exact hcompare (by have := h.2 habove; omega)
  case isFalse h =>
    split
    case isTrue habove =>
      refine Taken.above habove fun hbelow => ?_
      rw [dist_below, dist_above]
      refine hcompare ?_
      by_contra hless
      exact h ⟨hbelow, fun _ => by omega⟩
    case isFalse habove =>
      exact Taken.none (fun hbelow => h ⟨hbelow, fun h => absurd h habove⟩) habove

/-- A grid that is passed over has no decimal that reads back. -/
theorem not_readsAs_of_nearestOnGrid? (hrank : rank < rankCount)
    (h : nearestOnGrid? rank j = none) (count : Nat) : ¬ readsAs rank (onGrid j count) = true := by
  intro hreads
  have htaken := taken rank j
  rw [h] at htaken
  cases htaken with
  | none hbelow habove =>
      rcases readsAs_neighbour hrank hreads with ⟨-, hreads⟩ | ⟨-, hreads⟩
      · exact hbelow hreads
      · exact habove hreads

/-- No decimal of the grid that reads back is nearer than the one taken. -/
theorem dist_le_of_nearestOnGrid? (hrank : rank < rankCount) {d : Decimal}
    (h : nearestOnGrid? rank j = some d) {count : Nat}
    (hreads : readsAs rank (onGrid j count) = true) :
    |d.rational - size rank| ≤ |(onGrid j count).rational - size rank| := by
  have hbelow := rational_below_le rank j
  have habove := size_le_rational_above rank j
  have htaken := taken rank j
  rw [h] at htaken
  rcases readsAs_neighbour hrank hreads with ⟨hle, hreads⟩ | ⟨hle, hreads⟩
  · have hside : |(below rank j).rational - size rank| ≤ |(onGrid j count).rational - size rank| := by
      rw [abs_of_nonpos (by linarith), abs_of_nonpos (by linarith)]
      linarith
    cases htaken with
    | below => exact hside
    | above _ hnear => exact (hnear hreads).trans hside
  · have hside : |(above rank j).rational - size rank| ≤ |(onGrid j count).rational - size rank| := by
      rw [abs_of_nonneg (by linarith), abs_of_nonneg (by linarith)]
      linarith
    cases htaken with
    | below _ hnear => exact (hnear hreads).trans hside
    | above => exact hside

-- ================================================================ all grids

/-- The decimal reads back, no other that does lies on a coarser grid, and none
on the same grid is nearer. -/
structure Coarsest (rank : Nat) (d : Decimal) : Prop where
  reads : readsAs rank d = true
  exponent_le : ∀ d', readsAs rank d' = true → d'.exponent ≤ d.exponent
  nearest : ∀ d', readsAs rank d' = true → d'.exponent = d.exponent →
    |d.rational - size rank| ≤ |d'.rational - size rank|

/-- A decimal is on the grid of its exponent. -/
theorem eq_onGrid {d : Decimal} (h : d.exponent = (j : Int) - 1074) :
    d = onGrid j d.coefficient := by
  obtain ⟨coefficient, exponent⟩ := d
  cases h
  rfl

/-- From a grid with no coarser one to try, the search finds the coarsest. -/
theorem coarsest_shortestFrom (hrank : rank < rankCount) (j : Nat)
    (hbound : ∀ d, readsAs rank d = true → d.exponent ≤ (j : Int) - 1074) :
    Coarsest rank (shortestFrom rank j) := by
  induction j with
  | zero =>
      refine ⟨readsAs_finest rank, hbound, fun d' _ _ => ?_⟩
      rw [shortestFrom, rational_finest, sub_self, abs_zero]
      exact abs_nonneg _
  | succ j ih =>
      rw [shortestFrom]
      cases htaken : nearestOnGrid? rank (j + 1) with
      | none =>
          refine ih fun d hreads => ?_
          have hle := hbound d hreads
          by_contra hgt
          have heq := eq_onGrid (j := j + 1) (d := d) (by omega)
          rw [heq] at hreads
          exact not_readsAs_of_nearestOnGrid? hrank htaken _ hreads
      | some d =>
          obtain ⟨count, rfl⟩ := exists_of_nearestOnGrid? htaken
          refine ⟨readsAs_of_nearestOnGrid? htaken, hbound, fun d' hreads hexponent => ?_⟩
          rw [eq_onGrid hexponent] at hreads ⊢
          exact dist_le_of_nearestOnGrid? hrank htaken hreads

-- ============================================================== the first grid

/-- What reads as a positive value is positive. -/
theorem coefficient_pos (hrank : rank < rankCount) (hpos : 0 < rank) {d : Decimal}
    (h : readsAs rank d = true) : 0 < d.coefficient := by
  refine Nat.pos_of_ne_zero fun hzero => ?_
  have hrational : d.rational = 0 := by rw [rational, hzero, Nat.cast_zero, zero_mul]
  have hreads := rank_eq_zero_of_rational hrational
  rw [(readsAs_iff_rank hrank).1 h] at hreads
  exact hpos.ne' hreads

/-- What reads as a value other than zero is less than twice that value. -/
theorem rational_lt_two_mul_size (hrank : rank < rankCount) (hpos : 0 < rank) {d : Decimal}
    (h : readsAs rank d = true) : d.rational < 2 * size rank := by
  have hnext : size (rank + 1) ≤ 2 * size rank := by
    have hunits : units (rank + 1) ≤ 2 * units rank := by
      have := two_pow_scale_le_units hpos
      rw [units_succ]
      omega
    rw [size, size, ← mul_div_assoc]
    exact div_le_div_of_nonneg_right (by exact_mod_cast hunits) unitsOfOne_rat_pos.le
  have hsize : 0 < size rank := (size_nonneg 0).trans_lt (strictMono_size hpos)
  have hmiddle := rational_le_middle (Nat.le_of_eq ((readsAs_iff_rank hrank).1 h))
  rw [middle] at hmiddle
  linarith

/-- A digit counts for more than three bits. -/
theorem le_ten_pow_log2 (n : Nat) : n ≤ 10 ^ (n.log2 / 3 + 1) :=
  calc n ≤ 2 ^ (n.log2 + 1) := Nat.le_of_lt Nat.lt_log2_self
    _ ≤ 2 ^ (3 * (n.log2 / 3 + 1)) := Nat.pow_le_pow_right (by omega) (by omega)
    _ = 8 ^ (n.log2 / 3 + 1) := Nat.pow_mul 2 3 _
    _ ≤ 10 ^ (n.log2 / 3 + 1) := Nat.pow_le_pow_left (by omega) _

/-- On the grids past the first one of the search, every decimal but zero is
twice the value or more. -/
theorem two_mul_le_onGrid {n count : Nat} (k : Nat) (hcount : 0 < count) :
    2 * n ≤ count * 10 ^ (n.log2 / 3 + 1 + (k + 1)) :=
  calc 2 * n ≤ 10 ^ (k + 1) * 10 ^ (n.log2 / 3 + 1) := by
        refine Nat.mul_le_mul ?_ (le_ten_pow_log2 n)
        rw [Nat.pow_succ]
        have := ten_pow_pos k
        omega
    _ = 10 ^ (n.log2 / 3 + 1 + (k + 1)) := by rw [Nat.mul_comm, ← Nat.pow_add]
    _ ≤ count * 10 ^ (n.log2 / 3 + 1 + (k + 1)) := Nat.le_mul_of_pos_left _ hcount

/-- The search begins on a grid that is coarse enough. -/
theorem exponent_le_start (hrank : rank < rankCount) (hpos : 0 < rank) {d : Decimal}
    (h : readsAs rank d = true) :
    d.exponent ≤ (((tinyUnits rank).log2 / 3 + 1 : Nat) : Int) - 1074 := by
  by_contra hgt
  obtain ⟨k, hk⟩ : ∃ k : Nat, d.exponent = ((tinyUnits rank).log2 / 3 + 1 + (k + 1) : Nat) - 1074 :=
    ⟨(d.exponent + 1074).toNat - ((tinyUnits rank).log2 / 3 + 1) - 1, by omega⟩
  have hlarge := two_mul_le_onGrid (n := tinyUnits rank) k (coefficient_pos hrank hpos h)
  have hlt := rational_lt_two_mul_size hrank hpos h
  rw [eq_onGrid hk, rational_onGrid, size_eq_tinyUnits, ← mul_assoc,
    mul_lt_mul_iff_left₀ tiny_pos] at hlt
  have hcast : ((d.coefficient * 10 ^ ((tinyUnits rank).log2 / 3 + 1 + (k + 1)) : Nat) : ℚ)
    < ((2 * tinyUnits rank : Nat) : ℚ) := by
    rw [Nat.cast_mul 2, Nat.cast_ofNat]
    exact hlt
  exact absurd (Nat.cast_lt.1 hcast) (Nat.not_lt.2 hlarge)

/-- The shortest decimal of a positive value is the coarsest. -/
theorem coarsest_shortest (hrank : rank < rankCount) (hpos : 0 < rank) :
    Coarsest rank (shortest rank) :=
  coarsest_shortestFrom hrank _ fun _ => exponent_le_start hrank hpos

end Calculator.Decimal
