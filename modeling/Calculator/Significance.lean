/-
The plain form of a number in writing, and what its digits are worth.

# The form

A plain numeral has no exponent. Its whole part has no zero in front but the
one that stands alone, its fraction none at the end, and where the number is
whole there is neither a fraction nor a point. A minus stands in front of it if
the number is negative, a plus never.

# The digits

Zeros in front and at the end say where the point is, and nothing more. The
digits without them are the significant ones, and their number is what a
decimal costs. A number may be spelled in many ways; among the decimals that
read as it, one of least cost that lies as near as any of that cost is the
best that can be written.
-/
import Calculator.Rational
import Calculator.Decimal.Plain

namespace Calculator.Numeral

-- ==================================================================== the form

/-- Digits without a zero in front, unless that is all there is. -/
def IsWhole (digits : List Char) : Prop :=
  digits ≠ [] ∧ (digits.head? = some '0' → digits = ['0'])

/-- Digits without a zero at the end. -/
def IsFraction (digits : List Char) : Prop := digits ≠ [] ∧ digits.getLast? ≠ some '0'

/-- The numeral has the form that a number is written in. -/
inductive IsPlain (v : ℚ) : Numeral → Prop
  | whole {digits : List Char} (hinteger : ∃ z : ℤ, v = z) (hwhole : IsWhole digits) :
    IsPlain v ⟨if v < 0 then some .minus else none, .decimal digits none none⟩
  | fraction {digits fraction : List Char} (hinteger : ¬ ∃ z : ℤ, v = z) (hwhole : IsWhole digits)
    (hfraction : IsFraction fraction) :
    IsPlain v ⟨if v < 0 then some .minus else none, .decimal digits (some fraction) none⟩

-- ================================================================== the digits

/-- Digits without the zeros in front and at the end. -/
def significantDigits (digits : List Char) : List Char :=
  Decimal.dropTrailingZeros (digits.dropWhile (· == '0'))

/-- How many significant digits a decimal has. -/
def significance (n : Numeral) : Nat :=
  match n.magnitude with
  | .infinity _ => 0
  | .nan _ => 0
  | .decimal whole fraction _ => (significantDigits (whole ++ fraction.getD [])).length

/-- The numeral is a decimal, denotes a rational number and is read as a binary64
number. -/
structure Denotes (n : Numeral) (q : ℚ) (x : Binary64) : Prop where
  wellFormed : n.WellFormed
  rational : n.rational? = some q
  read : Token.ofWord (String.ofList n.spell) = .ok (.number x)

end Calculator.Numeral
