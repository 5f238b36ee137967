/-
The plain form is a numeral with the value of its decimal.

The digits around the point are the decimal's steps, cut at the last place of
the whole part. Filling the fraction up with zeros gives it one digit for each
place, so no place is out of step; each zero dropped at the end takes one
place and one factor of ten, which cancel (`shift_fractionDigits`). Where all
of them are dropped the point goes as well, and a fraction without digits
counts the same as none.
-/
import Calculator.Decimal.Plain
import Calculator.Numeral
import Calculator.Proofs.Decimal.Rounding

namespace Calculator.Decimal

-- ==================================================================== digits

/-- What is dropped at the front are zeros. -/
theorem eq_replicate_append_dropWhile (digits : List Char) :
    ∃ k, digits = List.replicate k '0' ++ digits.dropWhile (· == '0') := by
  refine ⟨(digits.takeWhile (· == '0')).length, ?_⟩
  have hzeros : digits.takeWhile (· == '0')
      = List.replicate (digits.takeWhile (· == '0')).length '0' := by
    refine List.eq_replicate_of_mem fun c hc => ?_
    simpa using List.all_eq_true.1 List.all_takeWhile c hc
  rw [← hzeros, List.takeWhile_append_dropWhile]

/-- Nothing but zeros at the end is dropped. -/
theorem eq_dropTrailingZeros_append (digits : List Char) :
    ∃ k, digits = dropTrailingZeros digits ++ List.replicate k '0' := by
  obtain ⟨k, hk⟩ := eq_replicate_append_dropWhile digits.reverse
  refine ⟨k, ?_⟩
  have hsplit := congrArg List.reverse hk
  rwa [List.reverse_append, List.reverse_reverse, List.reverse_replicate] at hsplit

theorem mem_of_mem_dropTrailingZeros {digits : List Char} {c : Char}
    (h : c ∈ dropTrailingZeros digits) : c ∈ digits := by
  obtain ⟨k, hk⟩ := eq_dropTrailingZeros_append digits
  rw [hk]
  exact List.mem_append_left _ h

/-- Zeros in front of a number leave its value. -/
theorem ofDigitChars_leftpad (n width : Nat) :
    Nat.ofDigitChars 10 ((Nat.toDigits 10 n).leftpad width '0') 0 = n := by
  rw [List.leftpad, Nat.ofDigitChars_append, Nat.ofDigitChars_replicate_zero, Nat.mul_zero,
    Nat.ofDigitChars_ten_toDigits]

theorem isDigit_of_mem_leftpad {n width : Nat} {c : Char}
    (h : c ∈ (Nat.toDigits 10 n).leftpad width '0') : c.isDigit = true := by
  rcases List.mem_append.1 h with h | h
  · rw [List.eq_of_mem_replicate h]
    rfl
  · exact Nat.isDigit_of_mem_toDigits (by decide) (by decide) h

-- ===================================================== the parts of the form

/-- There are only digits in front of the point. -/
theorem isDigit_of_mem_wholeDigits {d : Decimal} {c : Char} (h : c ∈ d.wholeDigits) :
    c.isDigit = true :=
  Nat.isDigit_of_mem_toDigits (by decide) (by decide) h

theorem isDigit_of_mem_fractionDigits {d : Decimal} {c : Char} (h : c ∈ d.fractionDigits) :
    c.isDigit = true :=
  isDigit_of_mem_leftpad (mem_of_mem_dropTrailingZeros h)

-- ================================================================= the value

/-- The fraction's digits count the steps behind the point, but for one factor
of ten for each place that has no digit. -/
theorem shift_fractionDigits (d : Decimal) :
    ∃ k, d.fractionDigits.length + k = d.places
      ∧ Nat.ofDigitChars 10 d.fractionDigits 0 * 10 ^ k = d.steps % 10 ^ d.places := by
  by_cases hplaces : d.places = 0
  · -- no place, yet a digit: the numeral of zero, which is dropped
    have hnone : d.fractionDigits = [] := by
      rw [fractionDigits, hplaces, Nat.pow_zero, Nat.mod_one]
      rfl
    refine ⟨0, ?_, ?_⟩
    · rw [hnone, hplaces]
      rfl
    · rw [hnone, hplaces, Nat.pow_zero, Nat.mod_one]
      rfl
  · -- the zeros that were dropped are the places without a digit
    obtain ⟨k, hk⟩ := eq_dropTrailingZeros_append
      ((Nat.toDigits 10 (d.steps % 10 ^ d.places)).leftpad d.places '0')
    refine ⟨k, ?_, ?_⟩
    · have hfits := (Nat.length_toDigits_le_iff (b := 10) (by decide) (Nat.pos_of_ne_zero hplaces)).2
        (Nat.mod_lt d.steps (ten_pow_pos d.places))
      have hlength := congrArg List.length hk
      rw [List.length_leftpad, Nat.max_eq_left hfits, List.length_append,
        List.length_replicate] at hlength
      exact hlength.symm
    · have hvalue := ofDigitChars_leftpad (d.steps % 10 ^ d.places) d.places
      rw [hk, Nat.ofDigitChars_append, Nat.ofDigitChars_replicate_zero, Nat.mul_comm] at hvalue
      exact hvalue

/-- All the digits as one number are the steps, but for the same factors of
ten. -/
theorem shift_digits (d : Decimal) :
    ∃ k, d.fractionDigits.length + k = d.places
      ∧ Nat.ofDigitChars 10 (d.wholeDigits ++ d.fractionDigits) 0 * 10 ^ k = d.steps := by
  obtain ⟨k, hlength, hfraction⟩ := shift_fractionDigits d
  refine ⟨k, hlength, ?_⟩
  calc Nat.ofDigitChars 10 (d.wholeDigits ++ d.fractionDigits) 0 * 10 ^ k
      = (10 ^ d.fractionDigits.length * (d.steps / 10 ^ d.places)
          + Nat.ofDigitChars 10 d.fractionDigits 0) * 10 ^ k := by
        rw [Nat.ofDigitChars_append, Nat.ofDigitChars_eq_ofDigitChars_zero, wholeDigits,
          Nat.ofDigitChars_ten_toDigits]
    _ = 10 ^ d.places * (d.steps / 10 ^ d.places) + d.steps % 10 ^ d.places := by
        rw [Nat.add_mul, hfraction, Nat.mul_right_comm, ← Nat.pow_add, hlength]
    _ = d.steps := Nat.div_add_mod _ _

/-- The digits around the point make up the decimal again, under another
denominator. -/
theorem cross_digits (d : Decimal) :
    (Numeral.toDecimal d.wholeDigits d.fractionDigits none).numerator * d.denominator
      = d.numerator * (Numeral.toDecimal d.wholeDigits d.fractionDigits none).denominator := by
  obtain ⟨k, hlength, hsteps⟩ := shift_digits d
  generalize hwritten : Numeral.toDecimal d.wholeDigits d.fractionDigits none = written
  have hexponent : written.exponent = 0 - d.fractionDigits.length := by rw [← hwritten]; rfl
  have hcoefficient : written.coefficient
      = Nat.ofDigitChars 10 (d.wholeDigits ++ d.fractionDigits) 0 := by rw [← hwritten]; rfl
  have hup : written.exponent.toNat = 0 := by omega
  have hdown : (-written.exponent).toNat = d.fractionDigits.length := by omega
  calc written.numerator * d.denominator
      = written.coefficient * 2 ^ 1074 * 10 ^ (d.fractionDigits.length + k) := by
        rw [numerator, hup, Nat.pow_zero, Nat.mul_one, hlength]
        rfl
    _ = written.coefficient * 10 ^ k * 2 ^ 1074 * 10 ^ d.fractionDigits.length := by
        rw [Nat.add_comm, Nat.pow_add, ← Nat.mul_assoc, Nat.mul_right_comm _ (2 ^ 1074)]
    _ = d.numerator * written.denominator := by
        rw [hcoefficient, hsteps, denominator, hdown]
        rfl

/-- The digits around the point denote the decimal. -/
theorem toDecimal_digits (negative : Bool) (d : Decimal) :
    (Numeral.toDecimal d.wholeDigits d.fractionDigits none).toBinary64 negative
      = d.toBinary64 negative :=
  toBinary64_congr (cross_digits d) negative

-- =============================================================== the numeral

/-- The fraction as it is written: not at all where it has no digits. -/
def fraction (d : Decimal) : Option (List Char) :=
  if d.fractionDigits = [] then none else some d.fractionDigits

theorem getD_fraction (d : Decimal) : d.fraction.getD [] = d.fractionDigits := by
  unfold fraction
  split
  case isTrue h => exact h.symm
  case isFalse => rfl

/-- The numeral whose digits are the plain form. -/
def plainNumeral (negative : Bool) (d : Decimal) : Numeral where
  sign := if negative then some .minus else none
  magnitude := .decimal d.wholeDigits d.fraction none

/-- The plain form follows the grammar of numerals. -/
theorem plainNumeral_wellFormed (negative : Bool) (d : Decimal) :
    (plainNumeral negative d).WellFormed := by
  refine ⟨fun c hc => ?_, ?_, fun e he => nomatch he⟩
  · rw [getD_fraction] at hc
    rcases List.mem_append.1 hc with hc | hc
    · exact isDigit_of_mem_wholeDigits hc
    · exact isDigit_of_mem_fractionDigits hc
  · exact List.append_ne_nil_of_left_ne_nil Nat.toDigits_ne_nil _

/-- As a word it is the digits, with a hyphen in front if negative. -/
theorem spell_plainNumeral (negative : Bool) (d : Decimal) :
    (plainNumeral negative d).spell = if negative then '-' :: d.plain else d.plain := by
  have hplain : (plainNumeral negative d).magnitude.spell = d.plain := by
    unfold plainNumeral fraction plain
    cases d.fractionDigits with
    | nil => exact List.append_nil _
    | cons c rest =>
        simp [Numeral.Magnitude.spell, Numeral.Exponent.spell]
  rw [Numeral.spell, hplain]
  cases negative <;> rfl

theorem isMinus_plainNumeral (negative : Bool) (d : Decimal) :
    Sign.isMinus (d.plainNumeral negative).sign = negative := by
  cases negative with
  | false => rfl
  | true => rfl

/-- And it is read as the decimal is. -/
theorem value_plainNumeral (negative : Bool) (d : Decimal) :
    (plainNumeral negative d).value = d.toBinary64 negative := by
  calc (plainNumeral negative d).value
      = (Numeral.toDecimal d.wholeDigits (d.fraction.getD []) none).toBinary64
          (Sign.isMinus (plainNumeral negative d).sign) := rfl
    _ = d.toBinary64 negative := by rw [isMinus_plainNumeral, getD_fraction, toDecimal_digits]

end Calculator.Decimal
