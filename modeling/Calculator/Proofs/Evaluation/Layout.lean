/-
Layout does not matter.

Evaluating a text is evaluating its words: the test for blank texts asks
whether there are words, and the machine takes nothing but what the words turn
out to be. So texts of the same words evaluate to the same, a fault and the
word it quotes included, and the words of a layout are the words it was made
of.
-/
import Calculator.Binary64.Bits
import Calculator.Proofs.Machine.Run
import Calculator.Proofs.Text.Layout

namespace Calculator

open Text

/-- Evaluation sees a text as its words. -/
theorem evaluate_congr {text other : String} (h : words text = words other) :
    evaluate text = evaluate other := by
  have hblank : trim text = "" ↔ trim other = "" := by
    rw [trim_eq_empty_iff, trim_eq_empty_iff, ← words_eq_nil_iff, ← words_eq_nil_iff, h]
  have htokens : tokens text = tokens other := by rw [tokens, tokens, h]
  simp only [evaluate, hblank, htokens]

/-- Only what has no words has no result. -/
theorem evaluate_eq_none_iff {text : String} : evaluate text = .ok none ↔ words text = [] := by
  constructor
  · intro h
    have hevaluated := evaluated text
    rw [h] at hevaluated
    cases hevaluated with
    | blank hwords => exact hwords
  · intro h
    rw [evaluate, if_pos (trim_eq_empty_iff.2 (words_eq_nil_iff.1 h))]

/-- The text of a layout has the words of the layout and no others. All layouts
of the same words evaluate to the same, value or fault, and to no result
exactly if there are no words. -/
theorem evaluate_layout (l : Layout) :
    words l.text = l.words
      ∧ (∀ other : Layout, other.words = l.words → evaluate other.text = evaluate l.text)
      ∧ (evaluate l.text = .ok none ↔ l.words = []) := by
  refine ⟨l.words_text, fun other h => evaluate_congr ?_, ?_⟩
  · rw [other.words_text, l.words_text, h]
  · rw [evaluate_eq_none_iff, l.words_text]

/-- The words of `(3 + $4)` between blanks of several scripts, and the same
word at fault. -/
theorem evaluate_layout_wide :
    words "\u00a0( 3\u2003\n+\t$4\u3000)" = ["(", "3", "+", "$4", ")"]
      ∧ evaluate "\u00a0( 3\u2003\n+\t$4\u3000)" = evaluate "(3 + $4)"
      ∧ evaluate "(3 + $4)" = .error (.unknownWord "$4") := by
  have isWord : ∀ word ∈ ["(", "3", "+", "$4", ")"], IsWord word := by
    simp only [List.forall_mem_cons]
    have ordinary {word : String} (hne : word ≠ "") (hall : word.toList.all isOrdinary = true) :
        IsWord word := .ordinary hne (List.all_eq_true.1 hall)
    exact ⟨.opening, ordinary (by decide) (by decide), ordinary (by decide) (by decide),
      ordinary (by decide) (by decide), .closing, by simp⟩
  let wide : Layout := {
    lead := "\u00a0"
    spaced := [⟨"(", " "⟩, ⟨"3", "\u2003\n"⟩, ⟨"+", "\t"⟩, ⟨"$4", "\u3000"⟩, ⟨")", ""⟩]
    blank_lead := by decide
    blank_gap := by decide
    isWord := fun s hs => isWord s.word (List.mem_map_of_mem hs)
    apart := by decide }
  let narrow : Layout := {
    lead := ""
    spaced := [⟨"(", ""⟩, ⟨"3", " "⟩, ⟨"+", " "⟩, ⟨"$4", ""⟩, ⟨")", ""⟩]
    blank_lead := by decide
    blank_gap := by decide
    isWord := fun s hs => isWord s.word (List.mem_map_of_mem hs)
    apart := by decide }
  obtain ⟨hwords, hsame, -⟩ := evaluate_layout narrow
  exact ⟨(evaluate_layout wide).1, hsame wide rfl, by decide +kernel⟩

end Calculator
