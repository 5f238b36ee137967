/-
Which texts have words, and which are words.

A text is cut between any two neighbours that are not both ordinary, so a
piece of two or more characters has ordinary ones only, and a blank is a
piece by itself. Dropping the pieces with a blank therefore drops blanks and
nothing else: only a text of blanks has no words. The test for blank texts
and the splitter never disagree.

A text of ordinary characters has no place for a cut, so it is one word.
-/
import Calculator.Text.Words
import Mathlib.Data.List.SplitBy
import Mathlib.Data.List.TakeWhile

namespace Calculator.Text

/-- In a row whose neighbours are ordinary, two by two, everything is
ordinary once there are two. -/
theorem isOrdinary_of_mem_chain {c d x : Char} {rest : List Char}
    (h : (c :: d :: rest).IsChain fun c d => (isOrdinary c && isOrdinary d) = true)
    (hx : x ∈ c :: d :: rest) : isOrdinary x = true := by
  induction rest generalizing c d with
  | nil =>
      simp only [List.isChain_cons_cons, Bool.and_eq_true] at h
      rcases List.mem_cons.1 hx with rfl | hx
      · exact h.1.1
      · rcases List.mem_singleton.1 hx with rfl
        exact h.1.2
  | cons e rest ih =>
      rw [List.isChain_cons_cons, Bool.and_eq_true] at h
      rcases List.mem_cons.1 hx with rfl | hx
      · exact h.1.1
      · exact ih h.2 hx

/-- A blank is a piece by itself. -/
theorem eq_singleton_of_isBlank {text piece : List Char} {b : Char}
    (hpiece : piece ∈ text.splitBy fun c d => isOrdinary c && isOrdinary d)
    (hb : b ∈ piece) (hblank : isBlank b = true) : piece = [b] := by
  match piece with
  | [] => cases hb
  | [c] => rw [List.mem_singleton.1 hb]
  | c :: d :: rest =>
      have hchain := List.isChain_of_mem_splitBy hpiece
      have hordinary := isOrdinary_of_mem_chain hchain hb
      simp [isOrdinary, hblank] at hordinary

/-- Trimming takes blanks from both ends and nothing else. -/
theorem exists_append_trim (text : String) :
    ∃ lead tail, text = lead ++ trim text ++ tail ∧ isBlankText lead = true
      ∧ isBlankText tail = true := by
  have hfront := List.takeWhile_append_dropWhile (p := isBlank) (l := text.toList)
  have hback := List.takeWhile_append_dropWhile (p := isBlank)
    (l := (text.toList.dropWhile isBlank).reverse)
  refine ⟨.ofList (text.toList.takeWhile isBlank),
    .ofList ((text.toList.dropWhile isBlank).reverse.takeWhile isBlank).reverse, ?_, ?_, ?_⟩
  · rw [← String.toList_inj, String.toList_append, String.toList_append, trim,
      String.toList_ofList, String.toList_ofList, String.toList_ofList, List.append_assoc,
      ← List.reverse_append, hback, List.reverse_reverse, hfront]
  · rw [isBlankText, String.toList_ofList]
    exact List.all_takeWhile
  · rw [isBlankText, String.toList_ofList, List.all_reverse]
    exact List.all_takeWhile

/-- Nothing is left of a text exactly if it is of blanks. -/
theorem trim_eq_empty_iff {text : String} : trim text = "" ↔ isBlankText text = true := by
  constructor
  · intro h
    obtain ⟨lead, tail, htext, hlead, htail⟩ := exists_append_trim text
    rw [htext, h, String.append_empty, isBlankText, String.toList_append, List.all_append,
      Bool.and_eq_true]
    exact ⟨hlead, htail⟩
  · intro h
    have hnil : text.toList.dropWhile isBlank = [] :=
      List.dropWhile_eq_nil_iff.2 (List.all_eq_true.1 h)
    rw [trim, hnil]
    rfl

/-- A text without words is one of blanks. -/
theorem words_eq_nil_iff {text : String} : words text = [] ↔ isBlankText text = true := by
  have hflat := List.flatten_splitBy (fun c d => isOrdinary c && isOrdinary d) text.toList
  simp only [words, pieces, List.map_eq_nil_iff, List.filter_eq_nil_iff, isBlankText,
    List.all_eq_true]
  constructor
  · intro h c hc
    rw [← hflat] at hc
    obtain ⟨piece, hpiece, hcp⟩ := List.mem_flatten.1 hc
    have hany : piece.any isBlank = true := by simpa using h piece hpiece
    obtain ⟨b, hb, hblank⟩ := List.any_eq_true.1 hany
    rw [eq_singleton_of_isBlank hpiece hb hblank, List.mem_singleton] at hcp
    rw [hcp]
    exact hblank
  · intro h piece hpiece
    obtain ⟨c, hc⟩ := List.exists_mem_of_ne_nil piece (List.ne_nil_of_mem_splitBy hpiece)
    have hmem : c ∈ text.toList := by
      rw [← hflat]
      exact List.mem_flatten.2 ⟨piece, hpiece, hc⟩
    have hany : piece.any isBlank = true := List.any_eq_true.2 ⟨c, hc, h c hmem⟩
    simp [hany]

/-- Ordinary characters in a row are one piece. -/
theorem pieces_of_isOrdinary {word : List Char} (hne : word ≠ [])
    (hordinary : ∀ c ∈ word, isOrdinary c = true) : pieces word = [word] := by
  have hchain : word.IsChain fun c d => (isOrdinary c && isOrdinary d) = true := by
    refine (List.pairwise_of_forall_mem_list fun c hc d hd => ?_).isChain
    rw [hordinary c hc, hordinary d hd]
    rfl
  have hblank : (!word.any isBlank) = true := by
    rw [Bool.not_eq_true', List.any_eq_false]
    intro c hc hblank
    have hc := hordinary c hc
    rw [isOrdinary, hblank] at hc
    cases hc
  rw [pieces, List.splitBy_of_isChain hne hchain, List.filter_singleton, hblank]
  rfl

theorem words_of_isOrdinary {word : List Char} (hne : word ≠ [])
    (hordinary : ∀ c ∈ word, isOrdinary c = true) :
    words (String.ofList word) = [String.ofList word] := by
  rw [words, String.toList_ofList, pieces_of_isOrdinary hne hordinary]
  rfl

end Calculator.Text
