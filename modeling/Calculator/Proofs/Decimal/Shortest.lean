/-
The shortest decimal reads back.

Whatever grid the search stops at, it stops there because the decimal it found
reads back. It cannot run off the end: on the finest grid the decimal is the
number itself, since a unit is a whole number of steps of that grid, and the
number itself is read without rounding. So every finite number has its text
(`toBinary64_shortest`), the largest and the subnormal ones included.
-/
import Calculator.Decimal.Shortest
import Calculator.Proofs.Decimal.Rounding

namespace Calculator.Decimal

open Binary64

variable {rank : Nat}

/-- The test of the search asks for the reading of the positive decimal. -/
theorem readsAs_iff {d : Decimal} : readsAs rank d = true ↔ d.toBinary64 false = ofRank false rank :=
  decide_eq_true_iff

theorem ten_pow (k : Nat) : 10 ^ k = 5 ^ k * 2 ^ k := Nat.mul_pow 5 2 k

/-- On the finest grid lies the number itself. -/
theorem readsAs_finest (rank : Nat) : readsAs rank (onGrid 0 (tinyUnits rank)) = true := by
  have hvalue : (onGrid 0 (tinyUnits rank)).numerator * 1
      = units rank * (onGrid 0 (tinyUnits rank)).denominator := by
    have hup : (onGrid 0 (tinyUnits rank)).exponent.toNat = 0 := rfl
    have hdown : (-(onGrid 0 (tinyUnits rank)).exponent).toNat = 1074 := rfl
    rw [numerator, denominator, hup, hdown, Nat.pow_zero, Nat.mul_one, Nat.mul_one, ten_pow,
      ← Nat.mul_assoc]
    show tinyUnits rank * 2 ^ 1074 = _
    rw [tinyUnits]
  rw [readsAs_iff, toBinary64_eq_round, Binary64.round,
    nearestRank_congr (denominator_pos _) Nat.one_pos hvalue, nearestRank_units]

/-- A grid gives out nothing that does not read back. -/
theorem readsAs_of_nearestOnGrid? {j : Nat} {d : Decimal} (h : nearestOnGrid? rank j = some d) :
    readsAs rank d = true := by
  unfold nearestOnGrid? at h
  dsimp only at h
  split at h
  case isTrue hbelow =>
    cases h
    exact hbelow.1
  case isFalse =>
    split at h
    case isTrue habove =>
      cases h
      exact habove
    case isFalse => cases h

/-- The search ends with a decimal that reads back, on the finest grid if on no
other. -/
theorem readsAs_shortestFrom (rank j : Nat) : readsAs rank (shortestFrom rank j) = true := by
  induction j with
  | zero => exact readsAs_finest rank
  | succ j ih =>
      rw [shortestFrom]
      cases hgrid : nearestOnGrid? rank (j + 1) with
      | none => exact ih
      | some d => exact readsAs_of_nearestOnGrid? hgrid

/-- The shortest decimal is read as the number that it was found for, under
either sign. -/
theorem toBinary64_shortest (negative : Bool) (rank : Fin rankCount) :
    (shortest rank).toBinary64 negative = .finite negative rank := by
  have hreads := readsAs_iff.1 (readsAs_shortestFrom rank ((tinyUnits rank).log2 / 3 + 1))
  rw [toBinary64_eq_round, Binary64.round] at hreads
  rw [toBinary64_eq_round, Binary64.round, shortest, eq_of_ofRank_eq rank.isLt hreads,
    ofRank_of_lt rank.isLt]

end Calculator.Decimal
