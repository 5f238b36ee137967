/-
The splitter finds the words of a layout.

A text may be cut between two characters that are not both ordinary: the
words of the two parts are then the words of the whole, in order
(`words_append`). In a layout every border between a word and a gap, or
between two words, is such a place. What is left are the parts by themselves:
a gap has no words, and a word is the one word of itself.
-/
import Calculator.Proofs.Text.Words
import Calculator.Text.Layout

namespace Calculator.Text

-- ============================================================ cutting a text

/-- The last character of the first text and the first one of the second
cannot share a word. -/
def CutBetween (first second : String) : Prop :=
  ∀ c ∈ first.toList.getLast?, ∀ d ∈ second.toList.head?,
    isOrdinary c = false ∨ isOrdinary d = false

/-- A border with a character on it that is not ordinary is always cut. -/
theorem pieces_append {first second : List Char}
    (h : ∀ c ∈ first.getLast?, ∀ d ∈ second.head?, isOrdinary c = false ∨ isOrdinary d = false) :
    pieces (first ++ second) = pieces first ++ pieces second := by
  have hcut : ∀ c ∈ first.getLast?, ∀ d ∈ second.head?,
      (isOrdinary c && isOrdinary d) = false := by
    intro c hc d hd
    exact Bool.and_eq_false_iff.2 (h c hc d hd)
  rw [pieces, List.splitBy_append hcut, List.filter_append]
  rfl

/-- Words do not run across a cut. -/
theorem words_append {first second : String} (h : CutBetween first second) :
    words (first ++ second) = words first ++ words second := by
  rw [words, String.toList_append, pieces_append h, List.map_append]
  rfl

/-- Nothing ordinary is at the front of the text. -/
def StartsApart (text : String) : Prop := ∀ c ∈ text.toList.head?, isOrdinary c = false

theorem StartsApart.cutBetween {second : String} (h : StartsApart second) (first : String) :
    CutBetween first second := fun _ _ d hd => Or.inr (h d hd)

/-- What is not empty is the front of every text that it begins. -/
theorem StartsApart.append {first : String} (h : StartsApart first) (hne : first ≠ "")
    (second : String) : StartsApart (first ++ second) := by
  intro c hc
  have hlist : first.toList ≠ [] := fun hnil => hne (String.toList_eq_nil_iff.1 hnil)
  rw [String.toList_append, List.head?_append_of_ne_nil _ hlist] at hc
  exact h c hc

-- ============================================================ words and gaps

theorem isOrdinary_of_isBlank {c : Char} (h : isBlank c = true) : isOrdinary c = false := by
  rw [isOrdinary, h]
  rfl

theorem isOrdinary_of_isParenthesis {c : Char} (h : isParenthesis c = true) :
    isOrdinary c = false := by
  rw [isOrdinary, h, Bool.not_true, Bool.and_false]

theorem isOrdinary_of_mem_gap {gap : String} (h : isBlankText gap = true) {c : Char}
    (hc : c ∈ gap.toList) : isOrdinary c = false :=
  isOrdinary_of_isBlank (List.all_eq_true.1 h c hc)

/-- A gap that is not empty keeps what is in front of it apart. -/
theorem startsApart_gap {gap : String} (h : isBlankText gap = true) : StartsApart gap :=
  fun _ hc => isOrdinary_of_mem_gap h (List.mem_of_mem_head? hc)

/-- Texts with a gap between them are cut there, if it is not empty or if they
are cut without it. -/
theorem cutBetween_gap_append {first gap second : String} (hgap : isBlankText gap = true)
    (h : gap ≠ "" ∨ CutBetween first second) : CutBetween first (gap ++ second) := by
  by_cases hempty : gap = ""
  · rw [hempty, String.empty_append]
    exact h.resolve_left fun hne => hne hempty
  · exact ((startsApart_gap hgap).append hempty second).cutBetween first

/-- A gap in front of a text adds no words. -/
theorem words_gap_append {gap : String} (h : isBlankText gap = true) (text : String) :
    words (gap ++ text) = words text := by
  have hcut : CutBetween gap text := fun c hc _ _ =>
    Or.inl (isOrdinary_of_mem_gap h (List.mem_of_mem_getLast? hc))
  rw [words_append hcut, words_eq_nil_iff.2 h, List.nil_append]

/-- A word is cut no further. -/
theorem IsWord.words {word : String} (h : IsWord word) : words word = [word] := by
  cases h with
  | opening => decide +kernel
  | closing => decide +kernel
  | ordinary hne hordinary =>
      have hlist : word.toList ≠ [] := fun hnil => hne (String.toList_eq_nil_iff.1 hnil)
      have h := words_of_isOrdinary hlist hordinary
      rwa [String.ofList_toList] at h

-- A parenthesis as a word has a border on either side.

theorem exists_of_parenthesis {word : String} (h : word ∈ ["(", ")"]) :
    ∃ c, isParenthesis c = true ∧ word.toList = [c] := by
  rcases List.mem_cons.1 h with rfl | h
  · exact ⟨'(', rfl, rfl⟩
  · rw [List.mem_singleton.1 h]
    exact ⟨')', rfl, rfl⟩

theorem startsApart_of_parenthesis {word : String} (h : word ∈ ["(", ")"]) : StartsApart word := by
  obtain ⟨c, hparen, hlist⟩ := exists_of_parenthesis h
  intro d hd
  rw [hlist] at hd
  cases hd
  exact isOrdinary_of_isParenthesis hparen

theorem cutBetween_of_parenthesis {word : String} (h : word ∈ ["(", ")"]) (text : String) :
    CutBetween word text := by
  obtain ⟨c, hparen, hlist⟩ := exists_of_parenthesis h
  intro d hd _ _
  rw [hlist] at hd
  cases hd
  exact Or.inl (isOrdinary_of_isParenthesis hparen)

-- ================================================================== the layout

/-- What follows a word is cut off from it. -/
theorem cutBetween_of_apart {s : Spaced} {rest : List Spaced}
    (hgap : isBlankText s.gap = true) (hrest : ∀ next ∈ rest.head?, s.Apart next) :
    CutBetween s.word (s.gap ++ Spaced.write rest) := by
  refine cutBetween_gap_append hgap ?_
  cases rest with
  | nil => exact Or.inr fun _ _ _ hd => nomatch hd
  | cons next rest =>
      rcases hrest next rfl with hne | hword | hnext
      · exact Or.inl hne
      · exact Or.inr (cutBetween_of_parenthesis hword _)
      · have hnonempty : next.word ≠ "" := by
          intro hnil
          rw [hnil] at hnext
          exact absurd hnext (by decide)
        exact Or.inr (((startsApart_of_parenthesis hnext).append hnonempty _).cutBetween _)

/-- Words with their gaps are cut into the words again, where any two ordinary
ones have a gap in between. -/
theorem words_write {spaced : List Spaced} (hgap : ∀ s ∈ spaced, isBlankText s.gap = true)
    (hword : ∀ s ∈ spaced, IsWord s.word) (hapart : spaced.IsChain Spaced.Apart) :
    words (Spaced.write spaced) = spaced.map Spaced.word := by
  induction spaced with
  | nil => exact words_eq_nil_iff.2 rfl
  | cons s rest ih =>
      obtain ⟨hgap, hgaps⟩ := List.forall_mem_cons.1 hgap
      obtain ⟨hword, hwords⟩ := List.forall_mem_cons.1 hword
      obtain ⟨hapart, hrest⟩ := List.isChain_cons.1 hapart
      calc words (s.word ++ (s.gap ++ Spaced.write rest))
          = words s.word ++ words (s.gap ++ Spaced.write rest) :=
            words_append (cutBetween_of_apart hgap hapart)
        _ = [s.word] ++ rest.map Spaced.word := by
            rw [hword.words, words_gap_append hgap, ih hgaps hwords hrest]
        _ = (s :: rest).map Spaced.word := rfl

/-- The words of a layout are the words of its text. -/
theorem Layout.words_text (l : Layout) : Text.words l.text = l.words := by
  rw [Layout.text, words_gap_append l.blank_lead]
  exact words_write l.blank_gap l.isWord l.apart

end Calculator.Text
