/-
A decimal is rounded once, whatever its exponent.

Reading a decimal spares itself the powers of ten of exponents that are far
off. `toBinary64_eq_round` says that this is a shortcut and no more: the exact
quotient would round to the same number. From `10 ^ 309` on the quotient is
past the last finite value. Below, a coefficient of logarithm `k` is less than
`10 ^ (k + 1)`, so the decimal is less than `10 ^ -324`, which is less than
half a unit.

Hence a decimal counts by its value alone. Digits may be moved across the
point, and zeros added at either end, as long as the exponent makes up for it
(`toBinary64_congr`).
-/
import Calculator.Decimal
import Calculator.Proofs.Binary64.Quotient

namespace Calculator.Decimal

open Binary64

/-- The decimal counted in units, before it is divided. -/
def numerator (d : Decimal) : Nat := d.coefficient * 10 ^ d.exponent.toNat * 2 ^ 1074

def denominator (d : Decimal) : Nat := 10 ^ (-d.exponent).toNat

theorem ten_pow_pos (k : Nat) : 0 < 10 ^ k := Nat.pow_pos (by decide)

theorem denominator_pos (d : Decimal) : 0 < d.denominator := ten_pow_pos _

-- ================================================================= shortcuts

/-- Ten is a little more than `2 ^ 3.32`. -/
theorem two_pow_le_ten_pow : 2 ^ 1023 ≤ 10 ^ 308 := by
  have h : 2 ^ 93 ≤ 10 ^ 28 := by decide
  calc 2 ^ 1023
      = (2 ^ 93) ^ 11 := by rw [show 1023 = 93 * 11 from rfl, Nat.pow_mul]
    _ ≤ (10 ^ 28) ^ 11 := Nat.pow_le_pow_left h 11
    _ = 10 ^ 308 := by rw [show 308 = 28 * 11 from rfl, Nat.pow_mul]

/-- A decimal from `10 ^ 309` on is past the last finite value. -/
theorem rankCount_le_nearestRank {d : Decimal} (hc : d.coefficient ≠ 0) (he : 309 ≤ d.exponent) :
    rankCount ≤ nearestRank d.numerator d.denominator := by
  obtain ⟨k, hk⟩ : ∃ k, d.exponent.toNat = 308 + (k + 1) := ⟨d.exponent.toNat - 309, by omega⟩
  have hpower : 2 ^ 1026 ≤ 10 ^ d.exponent.toNat := by
    have hten : 2 ^ 3 ≤ 10 ^ (k + 1) :=
      Nat.le_trans (by decide : 2 ^ 3 ≤ 10 ^ 1) (Nat.pow_le_pow_right (by decide) (by omega))
    calc 2 ^ 1026
        = 2 ^ 1023 * 2 ^ 3 := by rw [← Nat.pow_add]
      _ ≤ 10 ^ 308 * 10 ^ (k + 1) := Nat.mul_le_mul two_pow_le_ten_pow hten
      _ = 10 ^ d.exponent.toNat := by rw [hk, Nat.pow_add 10 308]
  have hlarge : 2 ^ 2100 * d.denominator ≤ d.numerator := by
    have hone : d.denominator = 1 := by
      rw [denominator, show (-d.exponent).toNat = 0 by omega, Nat.pow_zero]
    calc 2 ^ 2100 * d.denominator
        = 1 * 2 ^ 1026 * 2 ^ 1074 := by rw [hone, Nat.mul_one, Nat.one_mul, ← Nat.pow_add]
      _ ≤ d.numerator :=
        Nat.mul_le_mul_right _ (Nat.mul_le_mul (Nat.one_le_iff_ne_zero.2 hc) hpower)
  exact Nat.le_trans (by decide) (le_nearestRank d.denominator_pos hlarge)

/-- A decimal below `10 ^ -324` is nearest to zero. -/
theorem nearestRank_eq_zero {d : Decimal} (h : d.exponent + d.coefficient.log2 < -324) :
    nearestRank d.numerator d.denominator = 0 := by
  apply nearestRank_of_lt
  have hone : 10 ^ d.exponent.toNat = 1 := by
    rw [show d.exponent.toNat = 0 by omega, Nat.pow_zero]
  have hc : d.coefficient < 10 ^ (d.coefficient.log2 + 1) :=
    Nat.lt_of_lt_of_le Nat.lt_log2_self (Nat.pow_le_pow_left (by decide) _)
  have hpower : 2 ^ 1075 ≤ 10 ^ 308 * 10 ^ 16 := by
    calc 2 ^ 1075
        = 2 ^ 1023 * 2 ^ 52 := by rw [← Nat.pow_add]
      _ ≤ 10 ^ 308 * 10 ^ 16 := Nat.mul_le_mul two_pow_le_ten_pow (by decide)
  calc 2 * d.numerator
      = d.coefficient * 2 ^ 1075 := by
        rw [numerator, hone, Nat.mul_one, Nat.mul_left_comm, Nat.pow_succ' (n := 1074)]
    _ ≤ d.coefficient * (10 ^ 308 * 10 ^ 16) := Nat.mul_le_mul_left _ hpower
    _ < 10 ^ (d.coefficient.log2 + 1) * (10 ^ 308 * 10 ^ 16) :=
        Nat.mul_lt_mul_of_pos_right hc
          (Nat.mul_pos (ten_pow_pos 308) (ten_pow_pos 16))
    _ = 10 ^ (d.coefficient.log2 + 1 + 308 + 16) := by
        rw [← Nat.mul_assoc, ← Nat.pow_add 10 (d.coefficient.log2 + 1) 308,
          ← Nat.pow_add 10 (d.coefficient.log2 + 1 + 308) 16]
    _ ≤ d.denominator := Nat.pow_le_pow_right (by decide) (by omega)

-- ================================================================== rounding

/-- Reading a decimal is rounding its exact value. -/
theorem toBinary64_eq_round (negative : Bool) (d : Decimal) :
    d.toBinary64 negative = Binary64.round negative d.numerator d.denominator := by
  unfold toBinary64
  split
  case isTrue hzero =>
    rw [numerator, hzero, Nat.zero_mul, Nat.zero_mul, round_zero]
  case isFalse hc =>
    split
    case isTrue he => rw [Binary64.round, ofRank_of_le (rankCount_le_nearestRank hc he)]
    case isFalse =>
      split
      case isTrue hsmall =>
        rw [Binary64.round, nearestRank_eq_zero hsmall, zero, ofRank_of_lt]
      case isFalse => rw [numerator, denominator]

/-- Decimals of one value are read as one number. -/
theorem toBinary64_congr {d d' : Decimal}
    (h : d.numerator * d'.denominator = d'.numerator * d.denominator) (negative : Bool) :
    d.toBinary64 negative = d'.toBinary64 negative := by
  rw [toBinary64_eq_round, toBinary64_eq_round, Binary64.round, Binary64.round,
    nearestRank_congr d.denominator_pos d'.denominator_pos h]

end Calculator.Decimal
