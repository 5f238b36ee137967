/-
Where rounding changes from one value to the next.

The nearest rank of a quotient is at most a given rank exactly if the quotient
does not lie past the midpoint between the value at that rank and the next one;
at the midpoint itself the even rank wins (`nearestRank_le_iff`). Everything
that is known of rounding in rational numbers follows from this: the range of
quotients that round to a rank, with or without its ends; that it has no holes;
and where underflow and overflow begin, which are the first midpoint and the
last.
-/
import Calculator.Integer
import Calculator.Proofs.Binary64.Order
import Mathlib.Order.Monotone.Basic
import Mathlib.Tactic.Ring
import Mathlib.Tactic.SplitIfs

namespace Calculator

/-- A quotient rounds to at most `m` if it is below `m + 1 / 2`, or there with
`m` even. -/
theorem roundHalfEven_le_iff {n d m : Nat} (hd : 0 < d) :
    roundHalfEven n d ≤ m ↔ 2 * n < d * (2 * m + 1) ∨ 2 * n = d * (2 * m + 1) ∧ m % 2 = 0 := by
  have hsplit := Nat.div_add_mod n d
  have hrest := Nat.mod_lt n hd
  unfold roundHalfEven
  generalize n / d = whole at *
  generalize n % d = rest at *
  rcases Nat.lt_trichotomy whole m with hlt | rfl | hgt
  · have hmul : d * (whole + 1) ≤ d * m := Nat.mul_le_mul_left d hlt
    rw [Nat.mul_add] at hmul ⊢
    rw [Nat.mul_left_comm]
    split_ifs <;> omega
  · rw [Nat.mul_add, Nat.mul_left_comm]
    split_ifs <;> omega
  · have hmul : d * (m + 1) ≤ d * whole := Nat.mul_le_mul_left d hgt
    rw [Nat.mul_add] at hmul ⊢
    rw [Nat.mul_left_comm]
    split_ifs <;> omega

namespace Binary64

-- ====================================================== from value to value

/-- The next value is one spacing further. -/
theorem units_succ (rank : Nat) : units (rank + 1) = units rank + 2 ^ scale rank := by
  have hparts := scale_mul_add_significand rank
  have hlt := significand_lt rank
  have hle := @le_significand rank
  show units (rank + 1) = significand rank * 2 ^ scale rank + 2 ^ scale rank
  generalize scale rank = k at *
  generalize significand rank = s at *
  subst hparts
  by_cases hlast : s + 1 < 2 ^ 53
  · rw [Nat.add_assoc, units_of_parts hlast (fun hk => Nat.le_succ_of_le (hle hk)), Nat.succ_mul]
  · -- the last value of a block: the next one has the least significand
    have hs : s + 1 = 2 ^ 53 := by omega
    have hnext : k * 2 ^ 52 + s + 1 = (k + 1) * 2 ^ 52 + 2 ^ 52 := by omega
    rw [hnext, units_of_parts (by decide) (fun _ => Nat.le_refl _), ← Nat.add_one_mul, hs,
      Nat.pow_succ 2 k]
    omega

theorem strictMono_units : StrictMono units := by
  refine strictMono_nat_of_lt_succ fun rank => ?_
  rw [units_succ]
  exact Nat.lt_add_of_pos_right (Nat.two_pow_pos _)

/-- A positive value is at least its spacing. -/
theorem two_pow_scale_le_units {rank : Nat} (h : 0 < rank) : 2 ^ scale rank ≤ units rank := by
  refine Nat.le_mul_of_pos_left _ (Nat.pos_of_ne_zero fun hzero => ?_)
  have hparts := scale_mul_add_significand rank
  by_cases hscale : scale rank = 0
  · omega
  · have := le_significand hscale
    omega

-- ================================================================ midpoints

/-- A nearest rank is at most a given one exactly below the midpoint behind
that, or at the midpoint if the given rank is even. -/
theorem nearestRank_le_iff {n d rank : Nat} (hd : 0 < d) :
    nearestRank n d ≤ rank ↔ 2 * n < d * (units rank + units (rank + 1))
      ∨ 2 * n = d * (units rank + units (rank + 1)) ∧ rank % 2 = 0 := by
  have hnext := strictMono_units (Nat.lt_add_one rank)
  by_cases hbelow : spacing n d ≠ 0 ∧ rank < (spacing n d + 1) * 2 ^ 52
  · -- a rank in front of the block of the quotient
    obtain ⟨hspacing, hrank⟩ := hbelow
    have hnearest := first_le_nearestRank hd hspacing
    have hfirst : units ((spacing n d + 1) * 2 ^ 52) = 2 ^ 52 * 2 ^ spacing n d := by
      rw [Nat.succ_mul]
      exact units_of_parts (by decide) fun _ => Nat.le_refl _
    have hunits : d * units (rank + 1) ≤ n := by
      calc d * units (rank + 1)
          ≤ d * (2 ^ 52 * 2 ^ spacing n d) := by
            rw [← hfirst]
            exact Nat.mul_le_mul_left d (strictMono_units.monotone hrank)
        _ = 2 ^ 52 * (d * 2 ^ spacing n d) := Nat.mul_left_comm _ _ _
        _ ≤ n := le_of_spacing hd hspacing
    have hlt := Nat.mul_lt_mul_of_pos_left hnext hd
    rw [Nat.mul_add]
    omega
  · by_cases habove : (spacing n d + 2) * 2 ^ 52 ≤ rank
    · -- a rank behind the block
      have hnearest := nearestRank_le n hd
      have hfirst : units ((spacing n d + 2) * 2 ^ 52) = 2 ^ 53 * 2 ^ spacing n d := by
        rw [show (spacing n d + 2) * 2 ^ 52 = (spacing n d + 1) * 2 ^ 52 + 2 ^ 52 by omega,
          units_of_parts (by decide) (fun _ => Nat.le_refl _), Nat.pow_succ 2 (spacing n d)]
        omega
      have hunits : n < d * units rank := by
        calc n < 2 ^ 53 * (d * 2 ^ spacing n d) := lt_of_spacing n hd
          _ = d * (2 ^ 53 * 2 ^ spacing n d) := Nat.mul_left_comm _ _ _
          _ ≤ d * units rank := by
            rw [← hfirst]
            exact Nat.mul_le_mul_left d (strictMono_units.monotone habove)
      have hlt := Nat.mul_lt_mul_of_pos_left hnext hd
      rw [Nat.mul_add]
      omega
    · -- a rank of the block: rounding to a whole number decides
      obtain ⟨s, hs⟩ : ∃ s, rank = spacing n d * 2 ^ 52 + s := ⟨rank - spacing n d * 2 ^ 52, by omega⟩
      have hlt : s < 2 ^ 53 := by omega
      have hle : spacing n d ≠ 0 → 2 ^ 52 ≤ s := by omega
      have hunits : units rank = s * 2 ^ spacing n d := hs ▸ units_of_parts hlt hle
      have hscale : scale rank = spacing n d := by
        unfold scale
        omega
      have hsum : d * (units rank + units (rank + 1)) = d * 2 ^ spacing n d * (2 * s + 1) := by
        rw [units_succ, hunits, hscale]
        ring
      have heven : rank % 2 = 0 ↔ s % 2 = 0 := by omega
      rw [hsum, heven, ← roundHalfEven_le_iff (step_pos hd _), nearestRank]
      omega

end Binary64

end Calculator
