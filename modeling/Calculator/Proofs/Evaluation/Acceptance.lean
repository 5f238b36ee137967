/-
Which texts have a value.

Nothing in the machine looks at the order of operands and operators. An
expression is refused when an operator that is applied finds fewer than two
values, when a parenthesis has no partner, or when the values at the end are
not one. `Reducible` says what these checks come to, on the postfix order of
the tokens, and it is exactly the condition for a value.

It is less than the grammar asks. An operator may use a value that stands in
the wrong place, so a missing operand goes unnoticed where there is a surplus
one: `3 5 +` has the value of `3 + 5`. That is the only way. Tokens with a
value have as many gaps as they have surplus operands, and are a sentence
exactly if they have none.
-/
import Calculator.Binary64.Bits
import Calculator.Proofs.Evaluation.Layout
import Calculator.Proofs.Evaluation.Outcome
import Calculator.Proofs.Grammar.Recognition
import Calculator.Proofs.Postfix.Operands

namespace Calculator

open Token Postfix

variable {α : Type}

/-- In postfix order the tokens are complete, every operator has at least two
numbers more in front of it than operators, and there is one number more than
operators in all. -/
def Reducible (ts : List (Token α)) : Prop :=
  (convert [] ts).stop = none ∧ Enough 0 (convert [] ts).instructions
    ∧ pushes (convert [] ts).instructions = applies (convert [] ts).instructions + 1

/-- The machine ends with a value exactly on reducible tokens. -/
theorem exists_outcome_iff [Arithmetic α] {ts : List (Token α)} :
    (∃ x, Machine.empty.outcome ts = .ok x) ↔ Reducible ts := by
  simp only [outcome_eq_value]
  exact Program.exists_value_iff

theorem Reducible.ne_nil {ts : List (Token α)} (h : Reducible ts) : ts ≠ [] := by
  rintro rfl
  obtain ⟨-, -, hcount⟩ := h
  cases hcount

/-- A text with a value, taken apart. -/
theorem exists_tokens_of_value {text : String} {x : Binary64}
    (h : evaluate text = .ok (some x)) :
    ∃ ts : List (Token Binary64), tokens text = ts.map .ok
      ∧ Machine.empty.outcome ts = .ok x ∧ Balanced ts
      ∧ count .number ts = count .operator ts + 1 := by
  have hevaluated := evaluated text
  rw [h] at hevaluated
  cases hevaluated with
  | value htokens hne hrun hfinish =>
      have hvalue := Machine.balanced_of_value hrun hfinish
      exact ⟨_, htokens, Machine.outcome_eq_ok_iff.2 ⟨_, hrun, hfinish⟩, hvalue⟩

/-- Tokens with one number more than operators have as many gaps as surplus
operands, and are a sentence exactly if they are balanced and have none. -/
theorem sentence_iff_of_counts {ts : List (Token α)} (hbalanced : Balanced ts)
    (hcount : count .number ts = count .operator ts + 1) :
    gaps false ts = surplus false ts ∧ (Sentence ts ↔ surplus false ts = 0) := by
  have hgaps : gaps false ts = surplus false ts := by
    have := count_add_gaps false ts
    rw [Bool.toNat_false] at this
    omega
  refine ⟨hgaps, Sentence.surplus_eq_zero, fun hsurplus => ?_⟩
  exact sentence_of_shape hbalanced hsurplus (hgaps.trans hsurplus)

/-- A text has a value, a fault or no result, and the last of these exactly if
it is of blanks. -/
theorem exists_fault_iff {text : String} :
    (∃ fault, evaluate text = .error fault)
      ↔ Text.isBlankText text = false ∧ ¬ ∃ x, evaluate text = .ok (some x) := by
  have hnone : evaluate text = .ok none ↔ Text.isBlankText text = true :=
    evaluate_eq_none_iff.trans Text.words_eq_nil_iff
  rw [← Bool.not_eq_true, ← hnone]
  match evaluate text with
  | .ok none => simp
  | .ok (some x) => simp
  | .error fault => simp

/-- The words of a text with a value are such tokens, and the other way round.
-/
theorem exists_value_iff {text : String} :
    (∃ x, evaluate text = .ok (some x))
      ↔ ∃ ts : List (Token Binary64), tokens text = ts.map .ok ∧ Reducible ts := by
  constructor
  · rintro ⟨x, h⟩
    obtain ⟨ts, htokens, hvalue, -, -⟩ := exists_tokens_of_value h
    exact ⟨ts, htokens, exists_outcome_iff.1 ⟨x, hvalue⟩⟩
  · rintro ⟨ts, htokens, h⟩
    obtain ⟨x, hvalue⟩ := exists_outcome_iff.2 h
    refine ⟨x, ?_⟩
    rw [evaluate_of_tokens htokens h.ne_nil, hvalue]
    rfl

/-- A text has a value exactly if its words are tokens that are reducible, and
every other text but one of blanks has a fault. Tokens with a value are
balanced, their gaps and their surplus operands are equally many, and where
there are none they are a sentence. -/
theorem evaluate_value_iff_reducible (text : String) :
    ((∃ x, evaluate text = .ok (some x))
      ↔ ∃ ts : List (Token Binary64), tokens text = ts.map .ok ∧ Reducible ts)
    ∧ ((∃ fault, evaluate text = .error fault)
      ↔ Text.isBlankText text = false
        ∧ ¬ ∃ ts : List (Token Binary64), tokens text = ts.map .ok ∧ Reducible ts)
    ∧ ∀ x, evaluate text = .ok (some x) →
      ∃ ts : List (Token Binary64), tokens text = ts.map .ok ∧ Balanced ts
        ∧ gaps false ts = surplus false ts ∧ (Sentence ts ↔ surplus false ts = 0) := by
  refine ⟨exists_value_iff, ?_, fun x h => ?_⟩
  · rw [← exists_value_iff]
    exact exists_fault_iff
  · obtain ⟨ts, htokens, -, hbalanced, hcount⟩ := exists_tokens_of_value h
    exact ⟨ts, htokens, hbalanced, sentence_iff_of_counts hbalanced hcount⟩

/-- In `3 5 +` the surplus 5 makes up for the gap behind the operator, and
nothing does so in `3 5`. -/
theorem surplus_needs_gap :
    let three := Binary64.ofBits 0x4008000000000000#64
    let five := Binary64.ofBits 0x4014000000000000#64
    let eight := Binary64.ofBits 0x4020000000000000#64
    let accepted : List (Token Binary64) := [.number three, .number five, .operator .add]
    let refused : List (Token Binary64) := [.number three, .number five]
    (evaluate "3 5 +" = .ok (some eight) ∧ tokens "3 5 +" = accepted.map .ok
      ∧ Balanced accepted ∧ gaps false accepted = 1 ∧ surplus false accepted = 1
      ∧ ¬ Sentence accepted)
    ∧ tokens "3 5" = refused.map .ok ∧ ¬ Reducible refused
      ∧ ∃ fault, evaluate "3 5" = .error fault := by
  intro three five eight accepted refused
  have hinj : Function.Injective (Except.ok : Token Binary64 → Except Fault (Token Binary64)) :=
    fun _ _ h => Except.ok.inj h
  have hvalue : evaluate "3 5 +" = .ok (some eight) := by decide +kernel
  have haccepted : tokens "3 5 +" = accepted.map .ok := by decide +kernel
  have hrefused : tokens "3 5" = refused.map .ok := by decide +kernel
  have hirreducible : ¬ Reducible refused := by
    rintro ⟨-, -, hcount⟩
    cases hcount
  refine ⟨⟨hvalue, haccepted, ?_⟩, hrefused, hirreducible, ?_⟩
  · obtain ⟨-, -, hshape⟩ := evaluate_value_iff_reducible "3 5 +"
    obtain ⟨ts, hts, hbalanced, hgaps, hsentence⟩ := hshape eight hvalue
    obtain rfl : ts = accepted := hinj.list_map (hts.symm.trans haccepted)
    exact ⟨hbalanced, hgaps, rfl, fun h => absurd (hsentence.1 h) (by decide)⟩
  · obtain ⟨-, hfault, -⟩ := evaluate_value_iff_reducible "3 5"
    refine hfault.2 ⟨by decide, ?_⟩
    rintro ⟨ts, hts, hreducible⟩
    obtain rfl : ts = refused := hinj.list_map (hts.symm.trans hrefused)
    exact hirreducible hreducible

/-- A surplus operand makes up for a gap. -/
theorem operands_side_by_side_have_value :
    evaluate "3 5 +" = .ok (some (.ofBits 0x4020000000000000#64))
      ∧ ∃ ts : List (Token Binary64), tokens "3 5 +" = ts.map .ok ∧ ¬ Sentence ts := by
  refine ⟨by decide +kernel, [.number (.ofBits 0x4008000000000000#64),
    .number (.ofBits 0x4014000000000000#64), .operator .add], by decide +kernel, ?_⟩
  intro h
  have := h.surplus_eq_zero
  simp [surplus] at this

end Calculator
