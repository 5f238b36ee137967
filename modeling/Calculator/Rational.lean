/-
The rational numbers behind words and behind binary64 numbers.

# What is written

Digits count by their place: those in front of the point are a whole number,
those behind it a fraction of a power of ten. An exponent multiplies by
another power of ten, a sign goes in front. The names have no such number.

# What is represented

A finite binary64 number is a whole number of units under its sign. Rounding a
rational number under a sign takes the nearest of these numbers, and of two
that are equally near the one whose significand is even. Past the largest
finite number the next one would be `2 ^ 1024`; from halfway to it onwards,
the number is infinity.
-/
import Calculator.Integer
import Mathlib.Algebra.Order.Field.Rat

namespace Calculator

/-- A size under a sign. -/
def signed (negative : Bool) (size : ℚ) : ℚ := if negative then -size else size

-- =========================================================== what is written

def Decimal.rational (d : Decimal) : ℚ := d.coefficient * 10 ^ d.exponent

namespace Numeral

/-- What digits around a point count. -/
def positional (whole fraction : List Char) : ℚ :=
  Nat.ofDigitChars 10 whole 0 + Nat.ofDigitChars 10 fraction 0 / 10 ^ fraction.length

/-- The rational number that a numeral denotes, if it is a decimal. -/
def rational? (n : Numeral) : Option ℚ :=
  match n.magnitude with
  | .infinity _ => none
  | .nan _ => none
  | .decimal whole fraction exponent =>
    some (signed (Sign.isMinus n.sign)
      (positional whole (fraction.getD []) * 10 ^ Exponent.value exponent))

end Numeral

-- ======================================================= what is represented

namespace Binary64

/-- The value at a rank. -/
def size (rank : Nat) : ℚ := units rank / unitsOfOne

/-- The value at a rank under a sign. -/
def signedSize (negative : Bool) (rank : Nat) : ℚ := signed negative (size rank)

end Binary64

end Calculator
