/-
What it means that an operator misses an operand.

The fault is raised where an operator is applied and finds too few values.
That need not be an operator with a gap beside it: in `1 + 2 *` the product
takes both numbers, and what is left for the sum is too little. But it is
never far off. Either there is no number in front of the operator at all, or
it is its right operand that comes short. Then the right operand has no more
numbers than operators, and such tokens have a gap, which may be right behind
the operator and is no further away than the end of the operand.
-/
import Calculator.Binary64.Bits
import Calculator.Proofs.Evaluation.Outcome
import Calculator.Proofs.Machine.Anchor
import Calculator.Proofs.Token.Gap

namespace Calculator

open Token

variable {α : Type}

/-- Behind a right operand that is complete no other begins. -/
theorem RightOperand.noneBegins {o : Operator} {right : List (Token α)}
    {after : List (Except Fault (Token α))} (h : RightOperand o right after) :
    NoneBegins after := by
  intro item hitem
  rcases h.ends item hitem with hclosing | ⟨p, hoperator, -⟩
  · exact Or.inl hclosing
  · exact Or.inr ⟨p, hoperator⟩

/-- What has an operator applied ends its right operand. -/
theorem ends_of_forces {t : Token α} {o : Operator} (h : t.forces o = true) :
    t = .closing ∨ ∃ p : Operator, t = .operator p ∧ p.precedence ≤ o.precedence := by
  cases t with
  | number value => cases h
  | operator p => exact Or.inr ⟨p, rfl, of_decide_eq_true h⟩
  | opening => cases h
  | closing => exact Or.inl rfl

/-- A text with the fault, taken apart at the operator. -/
theorem exists_rightOperand {text : String} {o : Operator}
    (h : evaluate text = .error (.missingOperand o)) :
    ∃ (before right : List (Token Binary64)) (after : List (Except Fault (Token Binary64))),
      tokens text = before.map .ok ++ .ok (.operator o) :: (right.map .ok ++ after)
        ∧ RightOperand o right after
        ∧ (count .number before = 0 ∨ count .number right ≤ count .operator right) := by
  have hevaluated := evaluated text
  rw [h] at hevaluated
  generalize hfault : Except.error (Fault.missingOperand o) = result at hevaluated
  cases hevaluated with
  | blank hwords => cases hfault
  | value htokens hne hrun hfinish => cases hfault
  | unfinished htokens hne hrun hfinish =>
      cases hfault
      cases Machine.Finished.of_eq hfinish with
      | short hstack hleft hfew =>
          obtain ⟨before, right, rfl, hright, hcount⟩ :=
            Machine.exists_of_short hrun hstack hleft hfew
          refine ⟨before, right, [], ?_, ⟨hright, by simp⟩, hcount⟩
          rw [htokens, List.map_append, List.map_cons, List.append_nil]
  | @stopped ts item rest m failure htokens hrun hoffer =>
      obtain ⟨-, word, -, -, -, hword⟩ := exists_word_of_tokens htokens
      match item with
      | .error fault =>
          -- a word that is no token has a fault of its own
          cases hoffer
          have hspells := spells word
          rw [hword] at hspells
          cases hspells with
          | unknown hread => cases hfault
      | .ok t =>
          have hfeed : m.feed t = .error failure := hoffer
          cases Machine.Fed.of_eq hfeed with
          | unopened hstack hleft => cases hfault
          | @short _ taken p below left hstack hdue hleft hfew =>
              cases hfault
              obtain ⟨before, right, rfl, hright, hcount⟩ :=
                Machine.exists_of_short hrun hstack hleft hfew
              -- the token that forced the operator ends its right operand
              refine ⟨before, right, .ok t :: rest, ?_, ⟨hright, ?_⟩, hcount⟩
              · rw [htokens, List.map_append, List.map_cons, List.append_assoc, List.cons_append]
              · intro item hitem
                cases hitem
                have ht := ends_of_forces (hdue o (by simp))
                simpa using ht

/-- An operator that is reported to miss an operand misses one. Either there is
no number anywhere in front of it, and so a gap there, or its right operand has
no more numbers than operators, and so a gap in it or at either end of it. -/
theorem missingOperand_misses {text : String} {o : Operator}
    (h : evaluate text = .error (.missingOperand o)) :
    ∃ (before right : List (Token Binary64)) (after : List (Except Fault (Token Binary64))),
      tokens text = before.map .ok ++ .ok (.operator o) :: (right.map .ok ++ after)
        ∧ RightOperand o right after
        ∧ (count .number before = 0
            ∧ GapIn [] before (.ok (.operator o) :: (right.map .ok ++ after))
          ∨ count .number right ≤ count .operator right
            ∧ GapIn (before ++ [.operator o]) right after) := by
  obtain ⟨before, right, after, htokens, hright, hcount⟩ := exists_rightOperand h
  refine ⟨before, right, after, htokens, hright, ?_⟩
  rcases hcount with hnone | hfew
  · have hfew : count .number before ≤ count .operator before := by
      rw [hnone]
      exact Nat.zero_le _
    exact Or.inl ⟨hnone, gapIn_of_few_numbers hfew rfl (noneBegins_operator o _)⟩
  · have hends : endsOperand (before ++ [.operator o]) = false := by
      rw [endsOperand_snoc]
      rfl
    exact Or.inr ⟨hfew, gapIn_of_few_numbers hfew hends hright.noneBegins⟩

/-- In `(2 - 1) * (3 / )` the product is reported, and the gap is in the group
that is its right operand. -/
theorem missingOperand_misses_in_group :
    let text := "(2 - 1) * (3 / )"
    evaluate text = .error (.missingOperand .mul)
      ∧ ∃ (before right : List (Token Binary64)) (after : List (Except Fault (Token Binary64))),
        tokens text = before.map .ok ++ .ok (.operator .mul) :: (right.map .ok ++ after)
          ∧ RightOperand .mul right after
          ∧ (count .number before = 0
              ∧ GapIn [] before (.ok (.operator .mul) :: (right.map .ok ++ after))
            ∨ count .number right ≤ count .operator right
              ∧ GapIn (before ++ [.operator .mul]) right after) := by
  intro text
  have h : evaluate text = .error (.missingOperand .mul) := by decide +kernel
  exact ⟨h, missingOperand_misses h⟩

/-- The sum in `1 + 2 *` is reported, and it has a number on either side. -/
theorem missingOperand_with_neighbours :
    evaluate "1 + 2 *" = .error (.missingOperand .add)
      ∧ ¬ ∃ before after, LacksOperand (tokens "1 + 2 *") .add before after := by
  refine ⟨by decide +kernel, ?_⟩
  have htokens : tokens "1 + 2 *"
      = [.ok (.number (.ofBits 0x3ff0000000000000#64)), .ok (.operator .add),
        .ok (.number (.ofBits 0x4000000000000000#64)), .ok (.operator .mul)] := by
    decide +kernel
  rw [htokens]
  rintro ⟨before, after, hsplit, hbeside⟩
  match before with
  | [] => cases hsplit
  | [_, _] => cases hsplit
  | [_, _, _] => cases hsplit
  | _ :: _ :: _ :: _ :: _ => simp at hsplit
  | [_] =>
      cases hsplit
      rcases hbeside with hends | hbegins
      · simpa using hends _ rfl
      · simpa using hbegins _ rfl

end Calculator
