/-
Decimals, and the binary64 number nearest to one.

A decimal is a coefficient and a power of ten, neither of them bounded: a
word may hold any number of digits, and its exponent may have hundreds of
digits itself. Rounding the exact quotient would be right for all of them but
would form powers of ten of that size. Two comparisons keep the powers small:

- from `10 ^ 309` on, everything is past the largest finite value;
- below `10 ^ -324`, everything is nearer to zero than to the least positive
  value. The coefficient is below `2 ^ (k + 1)` for its logarithm `k`, hence
  below `10 ^ (k + 1)`, so the exponent and `k` tell.

In between the powers stay in proportion to the digits that were written.
-/
import Calculator.Binary64.Rounding

namespace Calculator

attribute [local instance] natPow

/-- The decimal `coefficient * 10 ^ exponent`. -/
structure Decimal where
  coefficient : Nat
  exponent : Int
  deriving DecidableEq, Repr

namespace Decimal

open Binary64 in
/-- The number of a sign that is nearest to a decimal. -/
def toBinary64 (negative : Bool) (d : Decimal) : Binary64 :=
  if d.coefficient = 0 then zero negative
  else if 309 ≤ d.exponent then infinity negative
  else if d.exponent + d.coefficient.log2 < -324 then zero negative
  else
    round negative (d.coefficient * 10 ^ d.exponent.toNat * 2 ^ (1074 : Nat))
      (10 ^ (-d.exponent).toNat)

end Decimal

end Calculator
