/-
The text of a result reads back as the result.

Printing and reading meet at the numeral. The text of a number is the word of
a numeral that the grammar admits, and a numeral is read back from its word
whatever it is. What remains is that the value of the numeral is the number,
which is the search for the shortest decimal keeping its promise.

The sign of a zero is not written, and nothing else is lost. So after one pass
through the text, reading and printing change nothing any more.
-/
import Calculator.Answer
import Calculator.Proofs.Decimal.Plain
import Calculator.Proofs.Decimal.Shortest
import Calculator.Proofs.Evaluation.Numeral

namespace Calculator

namespace Binary64

/-- The number without the sign of a zero. -/
def withoutZeroSign (x : Binary64) : Binary64 := if x = zero true then zero false else x

/-- The numeral whose word is the text of a number. -/
def numeral : Binary64 → Numeral
  | nan => ⟨none, .nan ['N', 'a', 'N']⟩
  | infinity negative => ⟨if negative then some .minus else none, .infinity ['i', 'n', 'f']⟩
  | finite negative rank =>
    if rank.val = 0 then ⟨none, .decimal ['0'] none none⟩
    else (Decimal.shortest rank).plainNumeral negative

/-- What is printed is a numeral, spelled out. -/
theorem text_eq_spell (x : Binary64) : x.text = String.ofList x.numeral.spell := by
  cases x with
  | nan => rfl
  | infinity negative => cases negative <;> rfl
  | finite negative rank =>
      rw [text, numeral]
      split
      case isTrue => rfl
      case isFalse => rw [Decimal.spell_plainNumeral]

theorem numeral_wellFormed (x : Binary64) : x.numeral.WellFormed := by
  cases x with
  | nan => rfl
  | infinity negative => exact List.mem_cons_self
  | finite negative rank =>
      rw [numeral]
      split
      case isTrue => exact ⟨by simp, by simp, by simp⟩
      case isFalse => exact Decimal.plainNumeral_wellFormed _ _

theorem withoutZeroSign_of_ne {x : Binary64} (h : x ≠ zero true) : x.withoutZeroSign = x :=
  if_neg h

theorem withoutZeroSign_zero (negative : Bool) : (zero negative).withoutZeroSign = zero false := by
  cases negative with
  | false => exact withoutZeroSign_of_ne (by decide)
  | true => exact if_pos rfl

/-- The numeral has the value of the number, but for the sign of zero. -/
theorem value_numeral (x : Binary64) : x.numeral.value = x.withoutZeroSign := by
  cases x with
  | nan => rfl
  | infinity negative => cases negative <;> rfl
  | finite negative rank =>
      rw [numeral]
      split
      case isTrue hzero =>
        have hrank : finite negative rank = zero negative :=
          congrArg (finite negative) (Fin.ext hzero)
        rw [hrank, withoutZeroSign_zero]
        rfl
      case isFalse hrank =>
        have hne : finite negative rank ≠ zero true := by
          intro h
          cases h
          exact hrank rfl
        rw [Decimal.value_plainNumeral, Decimal.toBinary64_shortest, withoutZeroSign_of_ne hne]

theorem text_zero (negative : Bool) : (zero negative).text = "0" := by
  rw [zero, text, if_pos rfl]

/-- The two zeros are printed alike. -/
theorem text_withoutZeroSign (x : Binary64) : x.withoutZeroSign.text = x.text := by
  by_cases h : x = zero true
  · rw [h, withoutZeroSign_zero, text_zero, text_zero]
  · rw [withoutZeroSign_of_ne h]

end Binary64

/-- The text of a result is one word, the word of a number, and it evaluates to
the result but for the sign of a zero. What it evaluates to has that text again. -/
theorem result_reads_back (x : Binary64) :
    Text.words (resultText (some x)) = [resultText (some x)]
      ∧ Token.ofWord (resultText (some x)) = .ok (.number x.withoutZeroSign)
      ∧ evaluate (resultText (some x)) = .ok (some x.withoutZeroSign)
      ∧ resultText (some x.withoutZeroSign) = resultText (some x) := by
  have hword : resultText (some x) = String.ofList x.numeral.spell := x.text_eq_spell
  have hnumeral := x.numeral_wellFormed
  refine ⟨?_, ?_, ?_, x.text_withoutZeroSign⟩
  · rw [hword, Numeral.words_spell hnumeral]
  · rw [hword, Numeral.ofWord_spell hnumeral, x.value_numeral]
  · rw [hword, Numeral.evaluate_spell hnumeral, x.value_numeral]

end Calculator
