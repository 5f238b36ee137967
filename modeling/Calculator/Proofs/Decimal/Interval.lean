/-
A decimal reads as the value in whose interval it lies.

The interval of a value is bounded by the midpoints towards its two
neighbours, and has these as members if its rank is even. Two things make it
useful. It does not depend on how the decimal is written, only on the rational
number that it is. And it has no holes: a decimal between two others that read
as the same value reads as that value as well.
-/
import Calculator.Proofs.Binary64.Midpoint
import Calculator.Proofs.Decimal.Shortest
import Calculator.Rational
import Mathlib.Tactic.FieldSimp
import Mathlib.Tactic.Linarith

namespace Calculator

namespace Binary64

theorem unitsOfOne_rat_pos : (0 : ℚ) < unitsOfOne := Nat.cast_pos.2 unitsOfOne_pos

theorem units_zero : units 0 = 0 := by decide

theorem size_nonneg (rank : Nat) : 0 ≤ size rank :=
  div_nonneg (Nat.cast_nonneg _) unitsOfOne_rat_pos.le

/-- Ranks are in the order of the values, with rational values as with counts
of units. -/
theorem strictMono_size : StrictMono size := fun _ _ h =>
  div_lt_div_of_pos_right (Nat.cast_lt.2 (strictMono_units h)) unitsOfOne_rat_pos

/-- Halfway between the value at a rank and the next one. -/
def middle (rank : Nat) : ℚ := (size rank + size (rank + 1)) / 2

/-- Counting units brings a value back to the natural numbers. -/
theorem size_mul_unitsOfOne (rank : Nat) : size rank * unitsOfOne = units rank :=
  div_mul_cancel₀ _ unitsOfOne_rat_pos.ne'

/-- Twice a midpoint is a whole number of units, so that it can be compared
without fractions. -/
theorem two_mul_middle (rank : Nat) :
    2 * (middle rank * unitsOfOne) = ((units rank + units (rank + 1) : Nat) : ℚ) := by
  rw [middle, Nat.cast_add, ← size_mul_unitsOfOne, ← size_mul_unitsOfOne]
  ring

end Binary64

namespace Decimal

open Binary64

theorem rational_nonneg (d : Decimal) : 0 ≤ d.rational :=
  mul_nonneg (Nat.cast_nonneg _) (zpow_nonneg (by norm_num) _)

/-- The rational number of a decimal is the quotient that rounding is given, in
units of one. -/
theorem rational_eq_div (d : Decimal) : d.rational = d.numerator / (d.denominator * unitsOfOne) := by
  have hone : (unitsOfOne : ℚ) ≠ 0 := unitsOfOne_rat_pos.ne'
  have hsplit : (10 : ℚ) ^ d.exponent * 10 ^ (-d.exponent).toNat = 10 ^ d.exponent.toNat := by
    rw [← zpow_natCast, ← zpow_natCast, ← zpow_add₀ (by norm_num)]
    congr 1
    omega
  have hnumerator : (d.numerator : ℚ) = d.coefficient * 10 ^ d.exponent.toNat * unitsOfOne := by
    rw [numerator, ← unitsOfOne]
    push_cast
    rfl
  have hdenominator : (d.denominator : ℚ) = 10 ^ (-d.exponent).toNat := by
    rw [denominator]
    push_cast
    rfl
  rw [rational, hnumerator, hdenominator, ← hsplit]
  field_simp

/-- Decimals with equal quotients are the same rational number. -/
theorem rational_eq_of_cross {d d' : Decimal}
    (h : d.numerator * d'.denominator = d'.numerator * d.denominator) : d.rational = d'.rational := by
  have hne (d : Decimal) : (d.denominator : ℚ) * unitsOfOne ≠ 0 :=
    mul_ne_zero (Nat.cast_ne_zero.2 d.denominator_pos.ne') unitsOfOne_rat_pos.ne'
  rw [rational_eq_div, rational_eq_div, div_eq_div_iff (hne d) (hne d'), ← mul_assoc, ← mul_assoc,
    ← Nat.cast_mul, h, Nat.cast_mul]

/-- The rank that a decimal reads as. -/
def rank (d : Decimal) : Nat := nearestRank d.numerator d.denominator

/-- A decimal is read by its rank, the sign kept apart. -/
theorem toBinary64_eq_ofRank (negative : Bool) (d : Decimal) :
    d.toBinary64 negative = ofRank negative d.rank :=
  toBinary64_eq_round negative d

/-- Reading as a finite value is having its rank. -/
theorem readsAs_iff_rank {rank : Nat} (hrank : rank < rankCount) {d : Decimal} :
    readsAs rank d = true ↔ d.rank = rank := by
  rw [readsAs_iff, toBinary64_eq_ofRank]
  constructor
  · exact eq_of_ofRank_eq hrank
  · exact congrArg _

-- ================================================================ intervals

/-- Comparing a decimal with a midpoint is comparing whole numbers. -/
theorem compare_middle (d : Decimal) (rank : Nat) :
    (d.rational < middle rank
        ↔ 2 * d.numerator < d.denominator * (units rank + units (rank + 1)))
      ∧ (d.rational = middle rank
        ↔ 2 * d.numerator = d.denominator * (units rank + units (rank + 1))) := by
  have hdenominator : (0 : ℚ) < d.denominator := Nat.cast_pos.2 d.denominator_pos
  have hshare : (0 : ℚ) < d.denominator * unitsOfOne := mul_pos hdenominator unitsOfOne_rat_pos
  have hscale : (0 : ℚ) < 2 * (d.denominator * unitsOfOne) := mul_pos two_pos hshare
  have hleft : d.rational * (2 * (d.denominator * unitsOfOne)) = ((2 * d.numerator : Nat) : ℚ) := by
    rw [rational_eq_div, mul_left_comm, div_mul_cancel₀ _ hshare.ne', Nat.cast_mul, Nat.cast_ofNat]
  have hright : middle rank * (2 * (d.denominator * unitsOfOne))
      = ((d.denominator * (units rank + units (rank + 1)) : Nat) : ℚ) := by
    rw [Nat.cast_mul, ← two_mul_middle]
    ring
  constructor
  · rw [← mul_lt_mul_iff_left₀ hscale, hleft, hright, Nat.cast_lt]
  · rw [← mul_left_inj' hscale.ne', hleft, hright, Nat.cast_inj]

/-- A decimal reads as a value up to some rank if it lies below the upper end
of its interval, or at that end where the rank is even. -/
theorem rank_le_iff {d : Decimal} {rank : Nat} : d.rank ≤ rank
    ↔ d.rational < middle rank ∨ d.rational = middle rank ∧ rank % 2 = 0 := by
  rw [(d.compare_middle rank).1, (d.compare_middle rank).2]
  exact nearestRank_le_iff d.denominator_pos

/-- The interval of an even rank is closed above. -/
theorem rank_le_iff_of_even {d : Decimal} {rank : Nat} (h : rank % 2 = 0) :
    d.rank ≤ rank ↔ d.rational ≤ middle rank := by
  rw [rank_le_iff, le_iff_lt_or_eq]
  simp only [h, and_true]

/-- Either way the midpoint is an upper bound. -/
theorem rational_le_middle {d : Decimal} {rank : Nat} (h : d.rank ≤ rank) :
    d.rational ≤ middle rank := by
  rcases rank_le_iff.1 h with hlt | ⟨heq, -⟩
  · exact hlt.le
  · exact heq.le

/-- A decimal with a greater rank lies at that midpoint or above. -/
theorem middle_le_rational {d : Decimal} {rank : Nat} (h : rank < d.rank) :
    middle rank ≤ d.rational := by
  by_contra hlt
  exact absurd (rank_le_iff.2 (Or.inl (not_le.1 hlt))) (Nat.not_le.2 h)

/-- Zero reads as zero, whatever exponent it is written with. -/
theorem rank_eq_zero_of_rational {d : Decimal} (h : d.rational = 0) : d.rank = 0 := by
  rw [← Nat.le_zero, rank_le_iff_of_even rfl, h, middle]
  exact div_nonneg (add_nonneg (size_nonneg 0) (size_nonneg 1)) two_pos.le

/-- A larger decimal has no smaller rank. -/
theorem rank_mono {d d' : Decimal} (h : d.rational ≤ d'.rational) : d.rank ≤ d'.rank := by
  rw [rank_le_iff]
  rcases rank_le_iff.1 (Nat.le_refl d'.rank) with hlt | ⟨heq, heven⟩
  · exact Or.inl (h.trans_lt hlt)
  · rcases h.lt_or_eq with hlt | hsame
    · exact Or.inl (hlt.trans_eq heq)
    · exact Or.inr ⟨hsame.trans heq, heven⟩

/-- What lies between two decimals of one rank has this rank. -/
theorem rank_between {low d high : Decimal} {rank : Nat} (hlow : low.rank = rank)
    (hhigh : high.rank = rank) (hle : low.rational ≤ d.rational)
    (hge : d.rational ≤ high.rational) : d.rank = rank :=
  Nat.le_antisymm (hhigh ▸ rank_mono hge) (hlow ▸ rank_mono hle)

end Decimal

end Calculator
