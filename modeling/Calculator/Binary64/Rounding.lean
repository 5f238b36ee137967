/-
Rounding an exact quotient to the nearest binary64 number.

Every operation of the calculator that can be inexact, reading a decimal
included, first computes its result as an exact quotient `n / d` of natural
numbers, counted in units of `2 ^ -1074`, and then comes here once.

# Why one division is enough

The block in which the quotient lies is told by its whole part alone: a whole
part of `k` binary digits, `k > 53`, lies where the spacing is `2 ^ (k - 53)`,
and a shorter one where the spacing is one unit. Measured in that spacing the
quotient is below `2 ^ 53`, and its nearest whole number is the significand.
If that number is `2 ^ 53` itself, the value belongs to the next block, and
the rank says so without a special case: ranks run on from block to block.
-/
import Calculator.Binary64

namespace Calculator

attribute [local instance] natPow

/-- The whole number nearest to `n / d`; of two equally near ones the even
one. -/
def roundHalfEven (n d : Nat) : Nat :=
  if 2 * (n % d) < d then n / d
  else if d < 2 * (n % d) then n / d + 1
  else n / d + n / d % 2

theorem roundHalfEven_one (n : Nat) : roundHalfEven n 1 = n := by
  simp [roundHalfEven, Nat.mod_one]

/-- A whole quotient is not rounded. -/
theorem roundHalfEven_mul_self (m : Nat) {d : Nat} (h : 0 < d) :
    roundHalfEven (m * d) d = m := by
  simp [roundHalfEven, h]

namespace Binary64

/-- The spacing, as a power of two of units, of the values around
`n / d` units. -/
def spacing (n d : Nat) : Nat := (n / d).log2 - 52

/-- The rank nearest to `n / d` units. It may lie past the last finite rank,
where the quotient is as near to the value that would follow. -/
def nearestRank (n d : Nat) : Nat :=
  spacing n d * 2 ^ (52 : Nat) + roundHalfEven n (d * 2 ^ spacing n d)

/-- The number of a sign nearest to `n / d` units, halfway to the even
significand, and infinity from halfway past the largest finite value. -/
def round (negative : Bool) (n d : Nat) : Binary64 :=
  ofRank negative (nearestRank n d)

/-- Around a value of the list the spacing is the one the value has. -/
theorem spacing_units (rank : Nat) : spacing (units rank) 1 = scale rank := by
  have hlt := significand_lt rank
  unfold spacing units
  rw [Nat.div_one]
  by_cases h : scale rank = 0
  · rw [h, Nat.pow_zero, Nat.mul_one]
    by_cases h0 : significand rank = 0
    · simp [h0]
    · have := (Nat.log2_lt h0).2 hlt
      omega
  · have hle := le_significand h
    have hpos : 0 < 2 ^ scale rank := Nat.two_pow_pos _
    have hlog : (significand rank * 2 ^ scale rank).log2 = 52 + scale rank := by
      refine (Nat.log2_eq_iff (Nat.mul_ne_zero (by omega) (Nat.ne_of_gt hpos))).2 ⟨?_, ?_⟩
      · rw [Nat.pow_add]
        exact Nat.mul_le_mul_right _ hle
      · rw [show 52 + scale rank + 1 = 53 + scale rank by omega, Nat.pow_add]
        exact Nat.mul_lt_mul_of_pos_right hlt hpos
    omega

/-- A value of the list is its own nearest value. -/
theorem nearestRank_units (rank : Nat) : nearestRank (units rank) 1 = rank := by
  rw [nearestRank, spacing_units, Nat.one_mul, units,
    roundHalfEven_mul_self _ (Nat.two_pow_pos _), scale_mul_add_significand]

/-- Nothing rounds to zero of its own sign. -/
theorem round_zero (negative : Bool) (d : Nat) : round negative 0 d = zero negative := by
  have h : nearestRank 0 d = 0 := by simp [nearestRank, spacing, roundHalfEven]
  rw [round, h, zero, ofRank_of_lt (by decide)]

end Binary64

end Calculator
