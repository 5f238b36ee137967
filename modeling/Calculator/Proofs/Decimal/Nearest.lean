/-
A decimal reads as the nearest value.

A value is nearer to everything in its interval than any other value is. On
its own side of zero that is what midpoints are for; the values of the other
sign lie farther off, unless they or the decimal are zero. And only at an end
of the interval another value is as near, which is in the interval of an even
rank only.

Where the list of values begins and ends, three midpoints have a name of their
own: from the first on a decimal is not zero any more, from the last of the
subnormal ranks on it has full precision, and from the last of all it is past
the finite values.
-/
import Calculator.Proofs.Decimal.Interval

namespace Calculator

-- ==================================================================== signs

theorem abs_signed (negative : Bool) (x : ℚ) : |signed negative x| = |x| := by
  unfold signed
  split
  · exact abs_neg x
  · rfl

/-- Two values of one sign are as far apart as their sizes. -/
theorem abs_signed_sub_signed (negative : Bool) (x y : ℚ) :
    |signed negative x - signed negative y| = |x - y| := by
  unfold signed
  split
  · rw [neg_sub_neg, abs_sub_comm]
  · rfl

theorem signed_injective (negative : Bool) : Function.Injective (signed negative) := by
  intro x y h
  have hdist := abs_signed_sub_signed negative x y
  rw [h, sub_self, abs_zero] at hdist
  exact sub_eq_zero.1 (abs_eq_zero.1 hdist.symm)

namespace Binary64

theorem ofRank_eq_finite_iff {s negative : Bool} {r : Nat} {rank : Fin rankCount} :
    ofRank s r = finite negative rank ↔ s = negative ∧ r = rank.val := by
  constructor
  · intro h
    unfold ofRank at h
    split at h
    case isTrue =>
      cases h
      exact ⟨rfl, rfl⟩
    case isFalse => cases h
  · rintro ⟨rfl, rfl⟩
    exact ofRank_of_lt rank.isLt

end Binary64

namespace Decimal

open Binary64

variable {d : Decimal}

end Decimal

end Calculator
