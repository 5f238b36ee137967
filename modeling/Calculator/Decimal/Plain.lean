/-
The plain form of a decimal: all of its digits around a point, and no
exponent, however many zeros that takes.

The digits before the point are the whole part's numeral, which has no
leading zero but the one that stands alone. The digits after it are the
fraction, filled up on the left and stripped of zeros on the right; a
fraction with nothing left is not written, nor is its point.
-/
import Calculator.Decimal

namespace Calculator.Decimal

attribute [local instance] natPow

/-- How many digits stand after the point before zeros are dropped. -/
def places (d : Decimal) : Nat := (-d.exponent).toNat

/-- The decimal counted in steps of its last place. -/
def steps (d : Decimal) : Nat := d.coefficient * 10 ^ d.exponent.toNat

def wholeDigits (d : Decimal) : List Char :=
  Nat.toDigits 10 (d.steps / 10 ^ d.places)

/-- A list of digits without the zeros at its end. -/
def dropTrailingZeros (digits : List Char) : List Char :=
  (digits.reverse.dropWhile (· == '0')).reverse

def fractionDigits (d : Decimal) : List Char :=
  dropTrailingZeros
    ((Nat.toDigits 10 (d.steps % 10 ^ d.places)).leftpad d.places '0')

/-- The characters of the plain form. -/
def plain (d : Decimal) : List Char :=
  match d.fractionDigits with
  | [] => d.wholeDigits
  | fraction => d.wholeDigits ++ '.' :: fraction

end Calculator.Decimal
