/-
Whole-number expressions are evaluated exactly and printed exactly.

The text is read as it is spelled: every literal is a numeral, so the tokens
of the text are those of the expression with numbers in the place of the
literals, and the grammar sees no difference. On the tree the integers and the
numbers are computed side by side, each number the integer it stands for. At
the top the number is written by its shortest decimal, which for an integer is
the integer's own numeral.
-/
import Calculator.Answer
import Calculator.Proofs.Decimal.Integer
import Calculator.Proofs.Evaluation.Numeral
import Calculator.Proofs.Grammar.Value

namespace Calculator

-- ================================================================== literals

namespace Literal

/-- A literal as a numeral: nothing but digits behind its sign. -/
def numeral (l : Literal) : Numeral := ⟨l.sign, .decimal l.digits none none⟩

/-- The number that a literal is read as. -/
def number (l : Literal) : Binary64 := l.numeral.value

theorem numeral_wellFormed (l : Literal) : l.numeral.WellFormed := by
  refine ⟨?_, ?_, by simp⟩
  · rw [Option.getD_none, List.append_nil]
    exact l.isDigit
  · rw [Option.getD_none, List.append_nil]
    exact l.digits_ne_nil

theorem spell_numeral (l : Literal) : String.ofList l.numeral.spell = l.spell := by
  show String.ofList (Sign.spell l.sign ++ (l.digits ++ [])) = l.spell
  rw [List.append_nil, spell]

/-- An integer literal is read by one rounding of its exact value. -/
theorem number_eq_round (l : Literal) :
    l.number = Binary64.round (Sign.isMinus l.sign) (l.magnitude * Binary64.unitsOfOne) 1 := by
  let d := Numeral.toDecimal l.digits [] none
  have hnumerator : d.numerator = l.magnitude * Binary64.unitsOfOne := by
    show Nat.ofDigitChars 10 (l.digits ++ []) 0 * 10 ^ 0 * 2 ^ 1074 = _
    rw [List.append_nil, Nat.pow_zero, Nat.mul_one, magnitude, Binary64.unitsOfOne]
  show d.toBinary64 _ = _
  rw [Decimal.toBinary64_eq_round, hnumerator]
  rfl

/-- In the range that rounding changes nothing. -/
theorem isInteger_number {l : Literal} (h : l.value.natAbs ≤ 2 ^ 53) :
    l.number.IsInteger l.value := by
  rw [number_eq_round]
  refine Binary64.isInteger_round Nat.one_pos ?_ (fun hne => ?_) h
  · rw [natAbs_value, Nat.mul_one]
  · unfold value at hne ⊢
    split at hne
    case isTrue hminus =>
      rw [if_pos hminus, hminus]
      exact (decide_eq_true (by omega)).symm
    case isFalse hplus =>
      rw [if_neg hplus, Bool.eq_false_iff.2 hplus]
      exact (decide_eq_false (by omega)).symm

end Literal

-- ==================================================================== tokens

/-- What the word of a token stands for. -/
theorem Token.ofWord_spell (t : Token Literal) :
    Token.ofWord t.spell = .ok (t.map Literal.number) := by
  cases t with
  | number l =>
      show Token.ofWord l.spell = _
      rw [← l.spell_numeral, Numeral.ofWord_spell l.numeral_wellFormed]
      rfl
  | operator o => cases o <;> rfl
  | opening => rfl
  | closing => rfl

/-- The tokens of a text are those that its words spell, with numbers for
literals. -/
theorem tokens_of_words {text : String} {ts : List (Token Literal)}
    (h : Text.words text = ts.map Token.spell) :
    tokens text = (ts.map (Token.map Literal.number)).map .ok := by
  rw [tokens, h, List.map_map, List.map_map]
  exact List.map_congr_left fun t _ => t.ofWord_spell

/-- The grammar does not look at numbers. -/
theorem Derives.map {α β : Type} (f : α → β) {c : Category} {ts : List (Token α)} {t : Tree α}
    (h : Derives c ts t) : Derives c (ts.map (Token.map f)) (t.map f) := by
  induction h with
  | number value => exact .number (f value)
  | group _ ih =>
      rw [List.map_cons, List.map_append]
      exact .group ih
  | ofFactor _ ih => exact .ofFactor ih
  | product ho _ _ ihs iht =>
      rw [List.map_append, List.map_cons]
      exact .product ho ihs iht
  | ofTerm _ ih => exact .ofTerm ih
  | sum ho _ _ ihs iht =>
      rw [List.map_append, List.map_cons]
      exact .sum ho ihs iht

-- ===================================================================== trees

/-- Where the integers stay exact, the numbers are the integers. -/
theorem Tree.isInteger_value {t : Tree Literal} (h : (t.map Literal.value).Exact) :
    (t.map Literal.number).value.IsInteger (t.map Literal.value).value := by
  induction t with
  | leaf l => exact Literal.isInteger_number h
  | node o left right ihl ihr =>
      obtain ⟨hleft, hright, hdiv, hrange⟩ := h
      exact (ihl hleft).apply (ihr hright) hdiv hrange

-- ================================================================== printing

/-- A negative integer is written with a hyphen and the digits of its size. -/
theorem toString_of_neg {z : Int} (h : z < 0) :
    toString z = String.ofList ('-' :: Nat.toDigits 10 z.natAbs) := by
  obtain ⟨m, rfl⟩ := Int.eq_negSucc_of_lt_zero h
  show "-" ++ String.ofList (Nat.toDigits 10 (m + 1)) = _
  rw [Int.natAbs_negSucc, ← List.singleton_append, String.ofList_append]

theorem toString_of_nonneg {z : Int} (h : 0 ≤ z) :
    toString z = String.ofList (Nat.toDigits 10 z.natAbs) := by
  obtain ⟨n, rfl⟩ := Int.eq_ofNat_of_zero_le h
  rfl

namespace Binary64

/-- A number that is an integer in the range is written as the integer. -/
theorem IsInteger.text_eq {x : Binary64} {z : Int} (h : x.IsInteger z)
    (hrange : z.natAbs ≤ 2 ^ 53) : x.text = toString z := by
  obtain ⟨negative, rank, rfl, hsigned⟩ := h
  have hunits := units_of_signedUnits hsigned
  by_cases hz : z = 0
  · -- both zeros are written alike
    have hrank : rank.val = 0 := by
      rw [Decimal.rank_eq_nearestRank hunits, hz, Int.natAbs_zero, Nat.zero_mul]
      rfl
    rw [Binary64.text, if_pos hrank, hz]
    rfl
  · have hpos : 0 < z.natAbs := Int.natAbs_pos.2 hz
    have hrank : rank.val ≠ 0 := by
      intro hzero
      rw [hzero] at hunits
      have hmul := Nat.mul_pos hpos unitsOfOne_pos
      rw [← hunits] at hmul
      exact absurd hmul (by decide)
    rw [Binary64.text, if_neg hrank, Decimal.plain_shortest_integer rank.isLt hunits hpos hrange,
      negative_of_signedUnits hsigned hz]
    by_cases hneg : z < 0
    · rw [toString_of_neg hneg, decide_eq_true hneg]
      rfl
    · rw [toString_of_nonneg (Int.not_lt.1 hneg), decide_eq_false hneg]
      rfl

end Binary64

-- =============================================================== expressions

/-- A text whose words are an expression of integer literals, exact on the
way, evaluates to the exact integer, and is answered with its numeral. The
exact integer is computed with the operations of the integers
(`Operator.apply_int`). -/
theorem evaluate_integers {text : String} {ts : List (Token Literal)} {t : Tree Literal}
    (hwords : Text.words text = ts.map Token.spell) (h : Derives .expression ts t)
    (hexact : (t.map Literal.value).Exact) :
    ∃ x, evaluate text = .ok (some x)
      ∧ x.IsInteger (t.map Literal.value).value
      ∧ resultText (some x) = toString (t.map Literal.value).value := by
  have hnumbers := h.map Literal.number
  have hinteger := Tree.isInteger_value hexact
  refine ⟨(t.map Literal.number).value, ?_, hinteger, ?_⟩
  · rw [evaluate_of_tokens (tokens_of_words hwords) hnumbers.ne_nil, outcome_sentence hnumbers]
    rfl
  · exact hinteger.text_eq hexact.natAbs_value_le

/-- From one end of the range, by a division, with a zero of negative sign on
the way. -/
theorem evaluate_integers_negative_zero :
    ∃ x, evaluate "-9007199254740992 / (1 + 0 * -5)" = .ok (some x)
      ∧ x.IsInteger (-9007199254740992)
      ∧ resultText (some x) = "-9007199254740992" := by
  let literal (sign : Option Sign) (text : String) (hne : text.toList ≠ [])
      (hall : text.toList.all Char.isDigit = true) : Literal :=
    ⟨sign, text.toList, hne, List.all_eq_true.1 hall⟩
  let edge := literal (some .minus) "9007199254740992" (by decide) (by decide)
  let one := literal none "1" (by decide) (by decide)
  let zero := literal none "0" (by decide) (by decide)
  let five := literal (some .minus) "5" (by decide) (by decide)
  have product : Derives .term ([.number zero] ++ .operator .mul :: [.number five])
      (.node .mul (.leaf zero) (.leaf five)) :=
    .product (Or.inl rfl) (.ofFactor (.number zero)) (.number five)
  have sum := Derives.sum (Or.inl rfl) (.ofTerm (.ofFactor (.number one))) product
  have quotient := Derives.product (Or.inr rfl) (.ofFactor (.number edge)) (.group sum)
  obtain ⟨x, hvalue, hinteger, htext⟩ :=
    @evaluate_integers "-9007199254740992 / (1 + 0 * -5)" _ _ (by decide +kernel)
      (.ofTerm quotient) (by decide)
  have hz : ((Tree.node .div (.leaf edge)
      (.node .add (.leaf one) (.node .mul (.leaf zero) (.leaf five)))).map Literal.value).value
        = -9007199254740992 := by decide
  rw [hz] at hinteger htext
  exact ⟨x, hvalue, hinteger, htext⟩

end Calculator
