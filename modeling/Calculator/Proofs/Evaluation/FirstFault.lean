/-
The first fault is final.

A text whose words fail, one of them no token or refused by the machine, fails
the same way whatever is written behind it, as long as what is written behind
it does not run on into its last word. The words of the longer text begin with
the words of the shorter one, and a run that has failed does not look further.

This is about faults of the words. A fault of the end of a text is another
matter: more text may still close the group or bring the operand.
-/
import Calculator.Binary64.Bits
import Calculator.Proofs.Machine.Run
import Calculator.Proofs.Text.Layout

namespace Calculator

open Text

-- ========================================================== texts in a row

/-- Where no word runs across the border, each side has its own tokens. -/
theorem tokens_append {first second : String} (h : CutBetween first second) :
    tokens (first ++ second) = tokens first ++ tokens second := by
  rw [tokens, words_append h, List.map_append]
  rfl

/-- A gap that is not empty keeps two texts apart, and so does a parenthesis
at the border. -/
def KeptApart (first gap second : String) : Prop :=
  gap ≠ "" ∨ (∃ c ∈ first.toList.getLast?, isParenthesis c = true)
    ∨ ∃ d ∈ second.toList.head?, isParenthesis d = true

/-- A gap, or a parenthesis at the border, keeps words apart. -/
theorem KeptApart.cutBetween {first gap second : String} (h : KeptApart first gap second)
    (hgap : isBlankText gap = true) : CutBetween first (gap ++ second) := by
  refine cutBetween_gap_append hgap (h.imp_right ?_)
  rintro (⟨c, hc, hparen⟩ | ⟨d, hd, hparen⟩)
  · intro x hx _ _
    rw [Option.mem_unique hx hc]
    exact Or.inl (isOrdinary_of_isParenthesis hparen)
  · intro _ _ y hy
    rw [Option.mem_unique hy hd]
    exact Or.inr (isOrdinary_of_isParenthesis hparen)

-- ============================================================= the first fault

/-- Where the words of a text fail, the text fails with that fault, and so
does every text that continues it. -/
theorem first_fault_final {text gap more : String} {failure : Failure Binary64}
    (h : Machine.empty.run (tokens text) = .error failure) (hgap : isBlankText gap = true)
    (hapart : KeptApart text gap more) :
    evaluate text = .error failure.fault ∧ evaluate (text ++ gap ++ more) = .error failure.fault := by
  refine ⟨evaluate_of_run_error h, evaluate_of_run_error ?_⟩
  rw [String.append_assoc, tokens_append (hapart.cutBetween hgap)]
  exact Machine.run_append_of_error h _

/-- The closing parenthesis of `3 )` fails, and `$` behind it is not heard of,
with nothing between the two. -/
theorem first_fault_final_at_parenthesis :
    let three := Binary64.ofBits 0x4008000000000000#64
    Machine.empty.run (tokens "3 )") = .error ⟨.unopenedGroup, ⟨[], [three]⟩⟩
      ∧ evaluate "3 )$" = .error .unopenedGroup := by
  intro three
  have hrun : Machine.empty.run (tokens "3 )") = .error ⟨.unopenedGroup, ⟨[], [three]⟩⟩ := by
    decide +kernel
  have hapart : KeptApart "3 )" "" "$" := Or.inr (Or.inl ⟨')', rfl, rfl⟩)
  exact ⟨hrun, (first_fault_final hrun rfl hapart).2⟩

-- A fault of the end is not final.
example : evaluate "( 3" = .error .unclosedGroup
    ∧ evaluate "( 3 )" = .ok (some (.ofBits 0x4008000000000000#64)) := by
  decide +kernel

end Calculator
