/-
What the program shows as a result can be read back from its box.

A text without blanks is on one line and does not end in a space, and putting
a legible text behind a line leaves it legible. A number is written in
characters that are no blanks. The messages of faults are fixed but for two,
which end in an operator's symbol and in the word that was at fault. That word
is one of the words of the text, whatever the stacks were when it came up, and
a word is not empty and has no blank in it.
-/
import Calculator.Proofs.Box.Reading
import Calculator.Proofs.Evaluation.Outcome
import Calculator.Proofs.Evaluation.ReadBack
import Calculator.Proofs.Text.Place

namespace Calculator

open Text

-- ===================================================================== blanks

theorem Text.IsWord.ne_empty {word : String} (h : IsWord word) : word ≠ "" := by
  cases h with
  | opening => decide
  | closing => decide
  | ordinary hne => exact hne

/-- A word has no blanks, whichever kind of word it is. -/
theorem Text.IsWord.not_isBlank {word : String} (h : IsWord word) :
    ∀ c ∈ word.toList, isBlank c = false := by
  cases h with
  | opening => exact List.forall_mem_singleton.2 rfl
  | closing => exact List.forall_mem_singleton.2 rfl
  | ordinary _ hordinary => exact fun c hc => (isOrdinary_iff.1 (hordinary c hc)).1

/-- What the splitter gives out are words. -/
theorem isWord_of_mem_words {text word : String} (h : word ∈ words text) : IsWord word := by
  obtain ⟨l, rfl⟩ := exists_layout text
  rw [l.words_text] at h
  exact l.found.isWord word h

namespace Box

variable {text : String}

/-- A text without blanks is one line and does not end in a space. -/
theorem Legible.of_not_isBlank (h : ∀ c ∈ text.toList, isBlank c = false) : Legible text where
  oneLine hmem := absurd (h '\n' hmem) (by decide)
  noSpace hlast := absurd (h ' ' (List.mem_of_mem_getLast? hlast)) (by decide)

/-- A text that is not empty is the end of what stands in front of it. -/
theorem Legible.append {first : String} (hfirst : '\n' ∉ first.toList) (h : Legible text)
    (hne : text ≠ "") : Legible (first ++ text) := by
  have hlist : text.toList ≠ [] := fun hnil => hne (String.toList_eq_nil_iff.1 hnil)
  refine ⟨?_, ?_⟩
  · rw [String.toList_append, List.mem_append]
    exact fun hmem => hmem.elim hfirst h.oneLine
  · rw [String.toList_append, List.getLast?_append_of_ne_nil _ hlist]
    exact h.noSpace

-- ==================================================================== results

/-- Every number prints as one word, and so without blanks. -/
theorem legible_text (x : Binary64) : Legible x.text := by
  apply Legible.of_not_isBlank
  rw [x.text_eq_spell, String.toList_ofList]
  intro c hc
  refine (isOrdinary_iff.1 (Numeral.IsWritten.isOrdinary ?_)).1
  rcases List.mem_append.1 hc with hc | hc
  · exact Numeral.isWritten_of_mem_sign hc
  · exact Numeral.Magnitude.isWritten_of_mem_spell x.numeral_wellFormed hc

/-- This holds of every result, also of none. -/
theorem legible_resultText (result : Option Binary64) : Legible (resultText result) := by
  cases result with
  | none => decide
  | some x => exact legible_text x

-- ===================================================================== faults

/-- A fault tells about the text's words. -/
theorem tells_of_error {fault : Fault} (h : evaluate text = .error fault) :
    Tells (words text) (.error fault) := by
  have hevaluated := evaluated text
  rw [h] at hevaluated
  cases hevaluated with
  | stopped htokens hrun hoffer => exact tells_stopped htokens hrun hoffer
  | unfinished htokens hne hrun hfinish => exact tells_unfinished htokens hne hrun hfinish

/-- The word at fault is one of them. -/
theorem isWord_of_unknownWord {word : String} (h : evaluate text = .error (.unknownWord word)) :
    IsWord word := by
  obtain ⟨-, before, after, -, hwords, -⟩ := tells_of_error h
  have hmem : word ∈ words text := by
    rw [hwords]
    exact List.mem_append_right _ List.mem_cons_self
  exact isWord_of_mem_words hmem

/-- A message is legible, also with the word that it may quote at its end. -/
theorem legible_message {fault : Fault} (h : evaluate text = .error fault) :
    Legible fault.message := by
  cases fault with
  | unopenedGroup => decide
  | unclosedGroup => decide
  | notOneValue => decide
  | unknownWord word =>
      have hword := isWord_of_unknownWord h
      exact (Legible.of_not_isBlank hword.not_isBlank).append (by decide) hword.ne_empty
  | missingOperand o =>
      have hsymbol : Legible (String.singleton o.symbol) := by
        cases o <;> decide
      refine hsymbol.append (by decide) ?_
      cases o <;> decide

-- ==================================================================== the box

/-- No row of a box is too narrow for its text. The box of texts without line
feeds has seven lines of equal length, and the texts are read back from it if
moreover neither ends in a space, so they are the only such texts with this
box. Results and faults are shown by texts of this kind, and a word that is
quoted in one of them is not empty and has no blank. -/
theorem draw_legible (expression result : String) :
    draw? expression result = some (draw expression result)
      ∧ ('\n' ∉ expression.toList → '\n' ∉ result.toList →
        (textLines (draw expression result)).length = 7
          ∧ ∀ line ∈ textLines (draw expression result),
            line.length = max expression.length result.length + 6)
      ∧ (Legible expression → Legible result →
        readBack (draw expression result) = some (expression, result)
          ∧ ∀ expression' result', Legible expression' → Legible result' →
            draw expression result = draw expression' result' →
              expression = expression' ∧ result = result')
      ∧ (∀ value, Legible (resultText value))
      ∧ (∀ text fault, evaluate text = .error fault →
        Legible fault.message
          ∧ ∀ word, fault = .unknownWord word → word ≠ "" ∧ ∀ c ∈ word.toList, isBlank c = false) := by
  refine ⟨draw?_eq expression result, fun hexpression hresult => ?_,
    fun hexpression hresult => ⟨readBack_draw hexpression hresult, ?_⟩, legible_resultText,
    fun text fault h => ⟨legible_message h, ?_⟩⟩
  · rw [textLines_draw hexpression hresult]
    refine ⟨rfl, fun l hl => ?_⟩
    obtain ⟨line, hline, rfl⟩ := List.mem_map.1 hl
    rw [String.length_toList]
    exact (isLine_of_mem_lines hline).length
  · intro expression' result' hexpression' hresult' hsame
    have hread := readBack_draw hexpression hresult
    rw [hsame, readBack_draw hexpression' hresult'] at hread
    cases hread
    exact ⟨rfl, rfl⟩
  · rintro word rfl
    have hword := isWord_of_unknownWord h
    exact ⟨hword.ne_empty, hword.not_isBlank⟩

/-- The box of an expression with a word at fault, both empty rows and all. -/
theorem draw_legible_unknown_word :
    evaluate "1 + §" = .error (.unknownWord "§")
      ∧ (textLines (draw "1 + §" (Fault.unknownWord "§").message)).length = 7
      ∧ readBack (draw "1 + §" (Fault.unknownWord "§").message)
        = some ("1 + §", "invalid token: §") := by
  have hfault : evaluate "1 + §" = .error (.unknownWord "§") := by decide +kernel
  obtain ⟨-, hlines, hread, -, hmessage⟩ :=
    draw_legible "1 + §" (Fault.unknownWord "§").message
  have hexpression : Legible "1 + §" := by decide
  have hresult := (hmessage "1 + §" _ hfault).1
  exact ⟨hfault, (hlines hexpression.oneLine hresult.oneLine).1, (hread hexpression hresult).1⟩

end Box

end Calculator
