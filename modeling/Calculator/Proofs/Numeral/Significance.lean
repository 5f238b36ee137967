/-
Significant digits are the digits of a coefficient.

Zeros in front add nothing to what digits count, and zeros at the end multiply
it by powers of ten. What is left begins and ends with another digit, so it
counts at least the power of ten of its first place and is no multiple of ten
(`exists_normal`). A decimal thus has a form of its own, whose coefficient has
as many digits as the numeral has significant ones.
-/
import Calculator.Proofs.Decimal.Minimal
import Calculator.Significance

namespace Calculator

namespace Numeral

-- ============================================================ what digits count

/-- What a digit counts. -/
theorem digit_le {c : Char} (h : c.isDigit = true) : c.toNat - '0'.toNat ≤ 9 := by
  simp only [Char.isDigit, Bool.and_eq_true, decide_eq_true_eq] at h
  have hle : c.toNat ≤ 57 := h.2
  have hzero : '0'.toNat = 48 := rfl
  omega

theorem digit_pos {c : Char} (h : c.isDigit = true) (hne : c ≠ '0') : 0 < c.toNat - '0'.toNat := by
  simp only [Char.isDigit, Bool.and_eq_true, decide_eq_true_eq] at h
  have hle : 48 ≤ c.toNat := h.1
  have hzero : '0'.toNat = 48 := rfl
  have hne : c.toNat ≠ '0'.toNat := fun heq => hne (Char.toNat_inj.1 heq)
  omega

/-- The first digit counts the power of ten that the others stay below. -/
theorem ofDigitChars_cons_zero (c : Char) (digits : List Char) :
    Nat.ofDigitChars 10 (c :: digits) 0
      = 10 ^ digits.length * (c.toNat - '0'.toNat) + Nat.ofDigitChars 10 digits 0 := by
  rw [Nat.ofDigitChars_cons, Nat.mul_zero, Nat.zero_add, Nat.ofDigitChars_eq_ofDigitChars_zero]

/-- Digits are worth less than the power of ten of their number. -/
theorem ofDigitChars_lt {digits : List Char} (h : ∀ c ∈ digits, c.isDigit = true) :
    Nat.ofDigitChars 10 digits 0 < 10 ^ digits.length := by
  induction digits with
  | nil => exact Nat.one_pos
  | cons c rest ih =>
      have hrest := ih fun c hc => h c (List.mem_cons_of_mem _ hc)
      have hdigit := Nat.mul_le_mul_left (10 ^ rest.length) (digit_le (h c List.mem_cons_self))
      rw [ofDigitChars_cons_zero, List.length_cons, Nat.pow_succ]
      omega

/-- Without a zero in front the first place counts. -/
theorem le_ofDigitChars {digits : List Char} (h : ∀ c ∈ digits, c.isDigit = true)
    (hne : digits ≠ []) (hhead : digits.head? ≠ some '0') :
    10 ^ digits.length ≤ 10 * Nat.ofDigitChars 10 digits 0 := by
  cases digits with
  | nil => exact absurd rfl hne
  | cons c rest =>
      have hc : c ≠ '0' := fun heq => hhead (congrArg some heq)
      have hdigit := Nat.mul_le_mul_left (10 ^ rest.length) (digit_pos (h c List.mem_cons_self) hc)
      rw [ofDigitChars_cons_zero, List.length_cons, Nat.pow_succ]
      omega

/-- Without a zero at the end ten is no divisor. -/
theorem not_ten_dvd_ofDigitChars {digits : List Char} (h : ∀ c ∈ digits, c.isDigit = true)
    (hne : digits ≠ []) (hlast : digits.getLast? ≠ some '0') :
    ¬ 10 ∣ Nat.ofDigitChars 10 digits 0 := by
  obtain ⟨front, c, rfl⟩ := (List.eq_nil_or_concat' digits).resolve_left hne
  have hc : c ≠ '0' := fun heq => hlast (by rw [heq, List.getLast?_concat])
  have hdigit := h c (List.mem_append_right _ List.mem_cons_self)
  have hpos := digit_pos hdigit hc
  have hle := digit_le hdigit
  rw [Nat.ofDigitChars_append, Nat.ofDigitChars_cons, Nat.ofDigitChars_nil]
  omega

-- ========================================================= significant digits

/-- The significance of a numeral counts the digits between its zeros. -/
theorem significance_of_magnitude {n : Numeral} {whole : List Char} {fraction : Option (List Char)}
    {exponent : Option Exponent} (h : n.magnitude = .decimal whole fraction exponent) :
    n.significance = (significantDigits (whole ++ fraction.getD [])).length := by
  rw [significance, h]

theorem head?_dropWhile_zero (digits : List Char) :
    (digits.dropWhile (· == '0')).head? ≠ some '0' := by
  intro hhead
  have hstop := List.head?_dropWhile_not (· == '0') digits
  rw [hhead] at hstop
  exact absurd hstop (by decide)

theorem getLast?_dropTrailingZeros (digits : List Char) :
    (Decimal.dropTrailingZeros digits).getLast? ≠ some '0' := by
  rw [Decimal.dropTrailingZeros, List.getLast?_reverse]
  exact head?_dropWhile_zero _

/-- The significant digits stand between zeros. -/
theorem exists_significantDigits (digits : List Char) : ∃ a b,
    digits = List.replicate a '0' ++ (significantDigits digits ++ List.replicate b '0') := by
  obtain ⟨a, ha⟩ := Decimal.eq_replicate_append_dropWhile digits
  obtain ⟨b, hb⟩ := Decimal.eq_dropTrailingZeros_append (digits.dropWhile (· == '0'))
  refine ⟨a, b, ?_⟩
  rw [significantDigits, ← hb, ← ha]

/-- No zero stands in front of the significant digits. -/
theorem head?_significantDigits (digits : List Char) :
    (significantDigits digits).head? ≠ some '0' := by
  intro hhead
  obtain ⟨b, hb⟩ := Decimal.eq_dropTrailingZeros_append (digits.dropWhile (· == '0'))
  refine head?_dropWhile_zero digits ?_
  rw [hb, List.head?_append, ← significantDigits, hhead, Option.some_or]

/-- Digits that are not all zero are those of a decimal without zeros at its
end. -/
theorem exists_normal {digits : List Char} (h : ∀ c ∈ digits, c.isDigit = true)
    (hpos : 0 < Nat.ofDigitChars 10 digits 0) (exponent : Int) :
    ∃ d : Decimal, d.rational = (⟨Nat.ofDigitChars 10 digits 0, exponent⟩ : Decimal).rational
      ∧ ¬ 10 ∣ d.coefficient ∧ d.HasDigits (significantDigits digits).length := by
  -- the zeros in front count nothing, those at the end go to the exponent
  obtain ⟨a, b, hsplit⟩ := exists_significantDigits digits
  have hcount : Nat.ofDigitChars 10 digits 0
      = 10 ^ b * Nat.ofDigitChars 10 (significantDigits digits) 0 := by
    conv_lhs => rw [hsplit]
    rw [Nat.ofDigitChars_append, Nat.ofDigitChars_replicate_zero, Nat.mul_zero,
      Nat.ofDigitChars_append, Nat.ofDigitChars_replicate_zero]
  have hdigits : ∀ c ∈ significantDigits digits, c.isDigit = true := fun c hc => h c (by
    rw [hsplit]
    exact List.mem_append_right _ (List.mem_append_left _ hc))
  have hne : significantDigits digits ≠ [] := by
    intro hnil
    rw [hcount, hnil, Nat.ofDigitChars_nil, Nat.mul_zero] at hpos
    exact absurd hpos (Nat.lt_irrefl 0)
  refine ⟨⟨Nat.ofDigitChars 10 (significantDigits digits) 0, exponent + b⟩, ?_, ?_, ?_, ?_⟩
  · rw [Decimal.rational, Decimal.rational, hcount, zpow_add₀ (by norm_num), zpow_natCast]
    push_cast
    ring
  · exact not_ten_dvd_ofDigitChars hdigits hne (getLast?_dropTrailingZeros _)
  · exact le_ofDigitChars hdigits hne (head?_significantDigits digits)
  · exact ofDigitChars_lt hdigits

end Numeral

end Calculator
