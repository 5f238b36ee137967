/-
The text of a number is the shortest decimal that reads as it.

A numeral that reads as the number has a decimal of its own, with as many
digits as the numeral has significant ones and no zero at its end, and the
decimal reads as the number as well (`exists_normal_of_denotes`). The numeral
of the text has the shortest decimal, which is the coarsest. So it is a matter
of decimals which of two numerals has fewer digits, and which is nearer.
-/
import Calculator.Proofs.Decimal.Form
import Calculator.Proofs.Evaluation.ReadBack
import Calculator.Proofs.Numeral.Rounding

namespace Calculator

open Binary64

variable {negative : Bool} {rank : Fin rankCount}

namespace Numeral

/-- A numeral that reads as a number has a decimal that does so, with a digit
for each significant one. -/
theorem exists_normal_of_denotes {n : Numeral} {q : ℚ} (hpos : 0 < rank.val)
    (h : n.Denotes q (finite negative rank)) :
    ∃ d : Decimal, q = signed negative d.rational ∧ Decimal.readsAs rank d = true
      ∧ ¬ 10 ∣ d.coefficient ∧ d.HasDigits n.significance := by
  obtain ⟨hformed, hrational, hread⟩ := h
  have hvalue : n.value = finite negative rank := by
    rw [ofWord_spell hformed] at hread
    exact Token.number.inj (Except.ok.inj hread)
  obtain ⟨whole, fraction, exponent, hmagnitude, hq⟩ := n.exists_parts_of_rational? hrational
  rw [WellFormed, hmagnitude] at hformed
  rw [value_of_magnitude hmagnitude] at hvalue
  rw [significance_of_magnitude hmagnitude]
  generalize hwritten : toDecimal whole (fraction.getD []) exponent = written at hq hvalue
  rw [Decimal.toBinary64_eq_ofRank, ofRank_eq_finite_iff] at hvalue
  obtain ⟨hsign, hrank⟩ := hvalue
  have hreads := (Decimal.readsAs_iff_rank rank.isLt).2 hrank
  have hcoefficient := Decimal.coefficient_pos rank.isLt hpos hreads
  rw [← hwritten] at hcoefficient
  obtain ⟨d, heq, hlast, hdigits⟩ := exists_normal hformed.1 hcoefficient
    (Exponent.value exponent - (fraction.getD []).length)
  have hsame : d.rational = written.rational := by
    rw [heq, ← hwritten]
    rfl
  rw [hsign, ← hsame] at hq
  exact ⟨d, hq, Decimal.readsAs_congr rank.isLt hsame hreads, hlast, hdigits⟩

/-- The numeral of a decimal denotes it. -/
theorem rational?_plainNumeral (negative : Bool) (d : Decimal) :
    (d.plainNumeral negative).rational? = some (signed negative d.rational) := by
  have hdigits := Decimal.rational_eq_of_cross d.cross_digits
  rw [rational_toDecimal, ← d.getD_fraction] at hdigits
  have hvalue : (d.plainNumeral negative).rational?
      = some (signed (Sign.isMinus (d.plainNumeral negative).sign)
        (positional d.wholeDigits (d.fraction.getD []) * 10 ^ Exponent.value none)) := rfl
  rw [hvalue, hdigits, Decimal.isMinus_plainNumeral]

/-- What is printed denotes a decimal that reads as the number. -/
theorem denotes_plainNumeral (negative : Bool) (rank : Fin rankCount) :
    ((Decimal.shortest rank).plainNumeral negative).Denotes
      (signed negative (Decimal.shortest rank).rational) (finite negative rank) where
  wellFormed := Decimal.plainNumeral_wellFormed _ _
  rational := rational?_plainNumeral _ _
  read := by
    rw [ofWord_spell (Decimal.plainNumeral_wellFormed _ _), Decimal.value_plainNumeral,
      Decimal.toBinary64_shortest]

-- ==================================================================== the form

/-- The sign of a value other than zero is that of the number. -/
theorem signedSize_neg_iff (hpos : 0 < rank.val) : signedSize negative rank < 0 ↔ negative = true := by
  have hsize : 0 < size rank := (size_nonneg 0).trans_lt (strictMono_size hpos)
  cases negative with
  | false => exact iff_of_false (not_lt.2 hsize.le) Bool.false_ne_true
  | true => exact iff_of_true (neg_neg_of_pos hsize) rfl

/-- A signed value is an integer if the value is a natural number. -/
theorem exists_int_signedSize_iff (negative : Bool) (rank : Nat) :
    (∃ z : ℤ, signedSize negative rank = z) ↔ ∃ n : Nat, size rank = n := by
  constructor
  · rintro ⟨z, hz⟩
    refine ⟨z.natAbs, ?_⟩
    rw [Nat.cast_natAbs, Int.cast_abs, ← hz, signedSize, abs_signed, abs_of_nonneg (size_nonneg rank)]
  · rintro ⟨n, hn⟩
    cases negative with
    | false => exact ⟨n, hn⟩
    | true => exact ⟨-n, by rw [signedSize, signed, if_pos rfl, hn, Int.cast_neg, Int.cast_natCast]⟩

/-- What is printed has the plain form. -/
theorem isPlain_plainNumeral (hpos : 0 < rank.val) :
    ((Decimal.shortest rank).plainNumeral negative).IsPlain (signedSize negative rank) := by
  have hsign : (if negative = true then some Sign.minus else none)
      = if signedSize negative rank < 0 then some Sign.minus else none :=
    if_congr (signedSize_neg_iff hpos).symm rfl rfl
  have hinteger : (Decimal.shortest rank).fraction = none ↔ ∃ z : ℤ, signedSize negative rank = z := by
    rw [Decimal.fraction_eq_none_iff, exists_int_signedSize_iff]
    exact (Decimal.coarsest_shortest rank.isLt hpos).whole_iff rank.isLt
  have hwhole := (Decimal.shortest rank).isWhole_wholeDigits
  rw [Decimal.plainNumeral, hsign]
  cases hfraction : (Decimal.shortest rank).fraction with
  | none => exact IsPlain.whole (hinteger.1 hfraction) hwhole
  | some digits =>
      refine IsPlain.fraction (fun h => ?_) hwhole (Decimal.isFraction_of_mem_fraction hfraction)
      rw [hinteger.2 h] at hfraction
      cases hfraction

end Numeral

/-- The text of a finite number that is not zero is a plain numeral of it, and
reads as it. No other decimal that does so has fewer significant digits, and
none that has as many is nearer. -/
theorem text_shortest (hrank : rank.val ≠ 0) : ∃ (n : Numeral) (q : ℚ),
    resultText (some (finite negative rank)) = String.ofList n.spell
      ∧ n.IsPlain (signedSize negative rank)
      ∧ n.Denotes q (finite negative rank)
      ∧ ∀ (m : Numeral) (p : ℚ), m.Denotes p (finite negative rank) →
        n.significance ≤ m.significance
          ∧ (m.significance = n.significance →
            |q - signedSize negative rank| ≤ |p - signedSize negative rank|) := by
  have hpos := Nat.pos_of_ne_zero hrank
  have hdenotes := Numeral.denotes_plainNumeral negative rank
  refine ⟨_, _, ?_, Numeral.isPlain_plainNumeral hpos, hdenotes, fun m p hm => ?_⟩
  · have htext := (finite negative rank).text_eq_spell
    rw [numeral, if_neg hrank] at htext
    exact htext
  · obtain ⟨d, hd, -, hlast, hdigits⟩ := Numeral.exists_normal_of_denotes hpos hdenotes
    obtain ⟨d', rfl, hreads', -, hdigits'⟩ := Numeral.exists_normal_of_denotes hpos hm
    have hcoarsest := (Decimal.coarsest_shortest rank.isLt hpos).congr rank.isLt
      (signed_injective negative hd).symm hlast
    refine ⟨hcoarsest.digits_le rank.isLt hdigits hreads' hdigits', fun hsame => ?_⟩
    rw [hd, signedSize, abs_signed_sub_signed, abs_signed_sub_signed]
    exact hcoarsest.dist_le rank.isLt hpos hdigits hreads' (hsame ▸ hdigits')

/-- The number behind the one nearest to `0.3` takes all of seventeen digits to
write. -/
theorem text_shortest_seventeen_digits :
    let rank : Fin rankCount := ⟨0x3fd3333333333334, by decide⟩
    rank.val ≠ 0 ∧ resultText (some (finite false rank)) = "0.30000000000000004"
      ∧ ∀ (m : Numeral) (p : ℚ), m.Denotes p (finite false rank) → 17 ≤ m.significance := by
  intro rank
  have hrank : rank.val ≠ 0 := by decide
  have htext : resultText (some (finite false rank)) = "0.30000000000000004" := by decide +kernel
  obtain ⟨n, q, hspell, -, hdenotes, hleast⟩ := @text_shortest false rank hrank
  have hread : Numeral.read? "0.30000000000000004".toList = some n := by
    rw [← htext, hspell, String.toList_ofList, Numeral.read?_spell hdenotes.wellFormed]
  have hsignificance : (Numeral.read? "0.30000000000000004".toList).map Numeral.significance
      = some 17 := by decide +kernel
  rw [hread, Option.map_some, Option.some_inj] at hsignificance
  refine ⟨hrank, htext, fun m p hm => ?_⟩
  rw [← hsignificance]
  exact (hleast m p hm).1

end Calculator
