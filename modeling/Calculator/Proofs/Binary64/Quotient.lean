/-
What rounding sees of a quotient.

A quotient is given by two natural numbers, and many pairs give the same one.
Rounding does not tell them apart: the whole part and the position of the rest
in a step are the same for `n / d` and for `n * k / (d * k)`, so equal
quotients have equal nearest ranks (`nearestRank_congr`).

Far from the finite values no exact computation is needed. A quotient of at
least `2 ^ k` units lies in a block that starts at `(k - 52) * 2 ^ 52` or
later, and one below half a unit is nearest to zero.
-/
import Calculator.Binary64.Rounding
import Mathlib.Algebra.Group.Nat.Defs

namespace Calculator

/-- Extending a fraction changes neither its whole part nor where its rest lies
in a step. -/
theorem roundHalfEven_mul_right (n d : Nat) {k : Nat} (hk : 0 < k) :
    roundHalfEven (n * k) (d * k) = roundHalfEven n d := by
  have hdiv : n * k / (d * k) = n / d := Nat.mul_div_mul_right n d hk
  have hmod : 2 * (n * k % (d * k)) = 2 * (n % d) * k := by
    rw [Nat.mul_mod_mul_right, Nat.mul_assoc]
  have hbelow : 2 * (n % d) * k < d * k ↔ 2 * (n % d) < d := Nat.mul_lt_mul_right hk
  have habove : d * k < 2 * (n % d) * k ↔ d < 2 * (n % d) := Nat.mul_lt_mul_right hk
  unfold roundHalfEven
  simp only [hdiv, hmod, hbelow, habove]

namespace Binary64

/-- So the nearest rank depends on the quotient and not on how it is given. -/
theorem nearestRank_mul_right (n d : Nat) {k : Nat} (hk : 0 < k) :
    nearestRank (n * k) (d * k) = nearestRank n d := by
  have hspacing : spacing (n * k) (d * k) = spacing n d := by
    unfold spacing
    rw [Nat.mul_div_mul_right n d hk]
  unfold nearestRank
  rw [hspacing, Nat.mul_right_comm d k, roundHalfEven_mul_right _ _ hk]

/-- Equal quotients have one nearest rank. -/
theorem nearestRank_congr {n d n' d' : Nat} (hd : 0 < d) (hd' : 0 < d')
    (h : n * d' = n' * d) : nearestRank n d = nearestRank n' d' := by
  calc nearestRank n d
      = nearestRank (n * d') (d * d') := (nearestRank_mul_right n d hd').symm
    _ = nearestRank (n' * d) (d' * d) := by rw [h, Nat.mul_comm d d']
    _ = nearestRank n' d' := nearestRank_mul_right n' d' hd

/-- Quotients from a power of two on have ranks from the block of that power
on. -/
theorem le_nearestRank {n d k : Nat} (hd : 0 < d) (h : 2 ^ k * d ≤ n) :
    (k - 52) * 2 ^ 52 ≤ nearestRank n d := by
  have hwhole : 2 ^ k ≤ n / d := (Nat.le_div_iff_mul_le hd).2 h
  have hlog : k ≤ (n / d).log2 :=
    (Nat.le_log2 (Nat.ne_of_gt (Nat.lt_of_lt_of_le (Nat.two_pow_pos k) hwhole))).2 hwhole
  have hspacing : k - 52 ≤ spacing n d := Nat.sub_le_sub_right hlog 52
  exact Nat.le_trans (Nat.mul_le_mul_right _ hspacing) (Nat.le_add_right _ _)

/-- Less than half a unit is nearest to zero. -/
theorem nearestRank_of_lt {n d : Nat} (h : 2 * n < d) : nearestRank n d = 0 := by
  have hdiv : n / d = 0 := Nat.div_eq_of_lt (by omega)
  have hmod : n % d = n := Nat.mod_eq_of_lt (by omega)
  simp [nearestRank, spacing, roundHalfEven, hdiv, hmod, h]

/-- A finite value has its rank only. -/
theorem eq_of_ofRank_eq {negative : Bool} {r rank : Nat} (hrank : rank < rankCount)
    (h : ofRank negative r = ofRank negative rank) : r = rank := by
  rw [ofRank_of_lt hrank] at h
  by_cases hr : r < rankCount
  · rw [ofRank_of_lt hr] at h
    cases h
    rfl
  · rw [ofRank_of_le (Nat.le_of_not_lt hr)] at h
    cases h

end Binary64

end Calculator
