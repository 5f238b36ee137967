/-
Where the words of a text stand in it.

Every text is the text of a layout (`exists_layout`). Read from its end, a
blank prolongs the gap in front, a parenthesis is a word in front, and an
ordinary character prolongs the word in front, or is one itself if there is a
gap, a parenthesis or nothing behind it. The words of a layout are known, so
the words of a text are those of its layout, and the layout shows where each
of them stands: which text is in front of it and which behind, and that two
neighbours have a gap between them unless one is a parenthesis.
-/
import Calculator.Proofs.Text.Scanner

namespace Calculator.Text

-- ================================================================ words

theorem mem_of_isParenthesis {c : Char} (h : isParenthesis c = true) :
    String.singleton c ∈ ["(", ")"] := by
  rw [isParenthesis, Bool.or_eq_true, decide_eq_true_eq, decide_eq_true_eq] at h
  rcases h with rfl | rfl
  · exact List.mem_cons_self
  · exact List.mem_cons_of_mem _ List.mem_cons_self

theorem isWord_of_mem {word : String} (h : word ∈ ["(", ")"]) : IsWord word := by
  rcases List.mem_cons.1 h with rfl | h
  · exact .opening
  · rw [List.mem_singleton.1 h]
    exact .closing

/-- A word that is no parenthesis is ordinary throughout. -/
theorem IsWord.isOrdinary {word : String} (h : IsWord word) (hnot : word ∉ ["(", ")"]) :
    ∀ c ∈ word.toList, isOrdinary c = true := by
  cases h with
  | opening => exact absurd List.mem_cons_self hnot
  | closing => exact absurd (List.mem_cons_of_mem _ List.mem_cons_self) hnot
  | ordinary _ hordinary => exact hordinary

theorem isWord_ordinary_append {c : Char} {word : String} (hc : isOrdinary c = true)
    (hword : ∀ d ∈ word.toList, isOrdinary d = true) : IsWord (String.singleton c ++ word) := by
  have hlist : (String.singleton c ++ word).toList = c :: word.toList := by
    rw [String.toList_append, String.toList_singleton, List.singleton_append]
  refine .ordinary (fun hempty => ?_) ?_
  · rw [hempty] at hlist
    cases hlist
  · rw [hlist]
    exact List.forall_mem_cons.2 ⟨hc, hword⟩

-- ======================================================== from text to layout

/-- Words kept apart make a layout with no gap in front. -/
theorem exists_layout_write {spaced : List Spaced}
    (hgap : ∀ s ∈ spaced, isBlankText s.gap = true) (hword : ∀ s ∈ spaced, IsWord s.word)
    (hapart : spaced.IsChain Spaced.Apart) : ∃ l : Layout, l.text = Spaced.write spaced :=
  ⟨⟨"", spaced, rfl, hgap, hword, hapart⟩, String.empty_append⟩

namespace Layout

variable (l : Layout)

/-- Blanks in front of a layout belong to its lead. -/
theorem exists_blank_append {gap : String} (hgap : isBlankText gap = true) :
    ∃ longer : Layout, longer.text = gap ++ l.text := by
  have hlead : isBlankText (gap ++ l.lead) = true := by
    rw [isBlankText, String.toList_append, List.all_append, Bool.and_eq_true]
    exact ⟨hgap, l.blank_lead⟩
  exact ⟨{ l with lead := gap ++ l.lead, blank_lead := hlead }, String.append_assoc⟩

/-- One more word in front, kept apart from the first one. -/
theorem exists_word_append {word : String} (hword : IsWord word)
    (hapart : ∀ next ∈ l.spaced.head?, Spaced.Apart ⟨word, l.lead⟩ next) :
    ∃ longer : Layout, longer.text = word ++ l.text :=
  exists_layout_write (List.forall_mem_cons.2 ⟨l.blank_lead, l.blank_gap⟩)
    (List.forall_mem_cons.2 ⟨hword, l.isWord⟩) (List.isChain_cons.2 ⟨hapart, l.apart⟩)

/-- One more character of the first word. -/
theorem exists_ordinary_append {c : Char} {s : Spaced} {rest : List Spaced}
    (hc : isOrdinary c = true) (hlead : l.lead = "") (hspaced : l.spaced = s :: rest)
    (hs : s.word ∉ ["(", ")"]) : ∃ longer : Layout, longer.text = String.singleton c ++ l.text := by
  have hgap := l.blank_gap
  have hword := l.isWord
  have hapart := l.apart
  rw [hspaced] at hgap hword hapart
  obtain ⟨hgap, hgaps⟩ := List.forall_mem_cons.1 hgap
  obtain ⟨hword, hwords⟩ := List.forall_mem_cons.1 hword
  obtain ⟨hnext, hapart⟩ := List.isChain_cons.1 hapart
  let first : Spaced := ⟨String.singleton c ++ s.word, s.gap⟩
  have hfirst : IsWord first.word := isWord_ordinary_append hc (hword.isOrdinary hs)
  have hkept : ∀ next ∈ rest.head?, first.Apart next := by
    intro next hn
    rcases hnext next hn with hne | hparen | hparen
    · exact Or.inl hne
    · exact absurd hparen hs
    · exact Or.inr (Or.inr hparen)
  have hgap' : ∀ t ∈ first :: rest, isBlankText t.gap = true := List.forall_mem_cons.2 ⟨hgap, hgaps⟩
  obtain ⟨longer, htext⟩ := exists_layout_write hgap' (List.forall_mem_cons.2 ⟨hfirst, hwords⟩)
    (List.isChain_cons.2 ⟨hkept, hapart⟩)
  refine ⟨longer, ?_⟩
  rw [htext, Layout.text, hlead, hspaced, String.empty_append]
  exact String.append_assoc

end Layout

/-- Every text can be laid out, by one character after another from its end. -/
theorem exists_layout (text : String) : ∃ l : Layout, l.text = text := by
  rw [← String.ofList_toList (s := text)]
  induction text.toList with
  | nil => exact exists_layout_write (List.forall_mem_nil _) (List.forall_mem_nil _) List.isChain_nil
  | cons c rest ih =>
      obtain ⟨l, hl⟩ := ih
      rw [String.ofList_cons, ← hl]
      rcases blank_or_parenthesis_or_ordinary c with hc | hc | hc
      · exact l.exists_blank_append (by simpa [isBlankText] using hc)
      · have hparen := mem_of_isParenthesis hc
        exact l.exists_word_append (isWord_of_mem hparen) fun _ _ => Or.inr (Or.inl hparen)
      · -- an ordinary character is more of an ordinary word that follows at once, or a new one
        by_cases hfirst : ∃ s rest, l.lead = "" ∧ l.spaced = s :: rest ∧ s.word ∉ ["(", ")"]
        · obtain ⟨s, rest, hlead, hspaced, hs⟩ := hfirst
          exact l.exists_ordinary_append hc hlead hspaced hs
        · have hword : IsWord (String.singleton c ++ "") := isWord_ordinary_append hc (by simp)
          rw [String.append_empty] at hword
          refine l.exists_word_append hword fun next hnext => ?_
          obtain ⟨rest, hspaced⟩ := List.head?_eq_some_iff.1 hnext
          by_contra hnot
          simp only [Spaced.Apart, not_or] at hnot
          exact hfirst ⟨next, rest, of_not_not hnot.1, hspaced, hnot.2.2⟩

-- ======================================================== from layout to place

theorem Spaced.write_append (front back : List Spaced) :
    Spaced.write (front ++ back) = Spaced.write front ++ Spaced.write back := by
  induction front with
  | nil => exact String.empty_append.symm
  | cons s front ih =>
      simp only [List.cons_append, Spaced.write, ih, String.append_assoc]

/-- A layout cut between two of its words: the text, and the words on either
side. -/
theorem Layout.cut (l : Layout) {front back : List Spaced} (h : l.spaced = front ++ back) :
    l.text = l.lead ++ Spaced.write front ++ Spaced.write back
      ∧ Text.words (l.lead ++ Spaced.write front) = front.map Spaced.word
      ∧ Text.words (Spaced.write back) = back.map Spaced.word := by
  have hgap := l.blank_gap
  have hword := l.isWord
  have hapart := l.apart
  rw [h] at hgap hword hapart
  obtain ⟨hgapf, hgapb⟩ := List.forall_mem_append.1 hgap
  obtain ⟨hwordf, hwordb⟩ := List.forall_mem_append.1 hword
  obtain ⟨hapartf, hapartb, -⟩ := List.isChain_append.1 hapart
  refine ⟨?_, ?_, words_write hgapb hwordb hapartb⟩
  · rw [Layout.text, h, Spaced.write_append, String.append_assoc]
  · rw [words_gap_append l.blank_lead, words_write hgapf hwordf hapartf]

/-- A layout at one of its words: the word, what is in front of it, and what
is behind. -/
theorem Layout.at_word (l : Layout) {front back : List Spaced} {s : Spaced}
    (h : l.spaced = front ++ s :: back) :
    l.text = l.lead ++ Spaced.write front ++ s.word ++ (s.gap ++ Spaced.write back)
      ∧ Text.words (l.lead ++ Spaced.write front) = front.map Spaced.word
      ∧ Text.words (s.gap ++ Spaced.write back) = back.map Spaced.word := by
  obtain ⟨htext, hbefore, -⟩ := l.cut h
  rw [List.append_cons] at h
  obtain ⟨-, -, hafter⟩ := l.cut h
  have hgap : isBlankText s.gap = true := l.blank_gap s (by rw [h]; simp)
  refine ⟨?_, hbefore, ?_⟩
  · rw [htext, Spaced.write, String.append_assoc, String.append_assoc, String.append_assoc]
  · rw [words_gap_append hgap, hafter]

/-- What the words of a text are: each is a parenthesis or of ordinary
characters; each stands in the text, between a text with the words before it
and a text with the words behind it; together they are the text without its
blanks; and between two neighbours that both are no parenthesis there is a
gap. -/
structure Found (text : String) (found : List String) : Prop where
  isWord : ∀ word ∈ found, IsWord word
  place : ∀ front word back, found = front ++ word :: back →
    ∃ before after, text = before ++ word ++ after ∧ words before = front ∧ words after = back
  together : found.flatMap String.toList = text.toList.filter fun c => !isBlank c
  apart : ∀ front word next back, found = front ++ word :: next :: back →
    word ∉ ["(", ")"] → next ∉ ["(", ")"] →
    ∃ before gap after, text = before ++ word ++ gap ++ next ++ after
      ∧ words before = front ∧ words after = back ∧ gap ≠ "" ∧ isBlankText gap = true

/-- The words of a layout are found in its text. -/
theorem Layout.found (l : Layout) : Found l.text l.words where
  isWord := by
    intro word hword
    obtain ⟨s, hs, rfl⟩ := List.mem_map.1 hword
    exact l.isWord s hs
  place := by
    intro front word back h
    obtain ⟨f, more, hspaced, rfl, hmore⟩ := List.map_eq_append_iff.1 h
    obtain ⟨s, b, rfl, rfl, rfl⟩ := List.map_eq_cons_iff.1 hmore
    obtain ⟨htext, hbefore, hafter⟩ := l.at_word hspaced
    exact ⟨_, _, htext, hbefore, hafter⟩
  together := by
    have hcancel : String.toList ∘ String.ofList = id := funext fun _ => String.toList_ofList
    rw [← l.words_text, Text.words, pieces_eq_scan, List.flatMap_def, List.map_map, hcancel,
      List.map_id, flatten_scan, List.nil_append]
  apart := by
    intro front word next back h hword hnext
    obtain ⟨f, more, hspaced, rfl, hmore⟩ := List.map_eq_append_iff.1 h
    obtain ⟨s, behind, rfl, rfl, hbehind⟩ := List.map_eq_cons_iff.1 hmore
    obtain ⟨t, b, rfl, rfl, rfl⟩ := List.map_eq_cons_iff.1 hbehind
    obtain ⟨htext, hbefore, -⟩ := l.at_word hspaced
    have hgap : isBlankText s.gap = true := l.blank_gap s (by rw [hspaced]; simp)
    have hapart : s.Apart t := by
      have hchain := l.apart
      rw [hspaced] at hchain
      exact (List.isChain_cons_cons.1 (List.isChain_append.1 hchain).2.1).1
    -- the second word has its own place, whose front ends with the first one
    rw [List.append_cons] at hspaced
    obtain ⟨-, -, hafter⟩ := l.at_word hspaced
    refine ⟨_, s.gap, t.gap ++ Spaced.write b, ?_, hbefore, hafter, ?_, hgap⟩
    · rw [htext]
      simp only [Spaced.write, String.append_assoc]
    · rcases hapart with hne | hparen | hparen
      · exact hne
      · exact absurd hparen hword
      · exact absurd hparen hnext

-- ================================================================= the words

/-- The words of a text are what the one-pass scan reads off, and what the
nested splitters come to; and they are found in the text as described. -/
theorem words_eq_scan (text : String) :
    words text = (scan [] text.toList).map String.ofList
      ∧ words text = (splitWords text.toList).map String.ofList
      ∧ Found text (words text) := by
  refine ⟨by rw [words, pieces_eq_scan], by rw [words, pieces_eq_scan, splitWords_eq_scan], ?_⟩
  obtain ⟨l, rfl⟩ := exists_layout text
  rw [l.words_text]
  exact l.found

/-- In `é(3\u00a0b)` a gap lies between `3` and `b`, and nothing between `é`
and the parenthesis. -/
theorem place_beside_parenthesis :
    words "é(3\u00a0b)" = ["é", "("] ++ "3" :: "b" :: [")"]
      ∧ ∃ before gap after, "é(3\u00a0b)" = before ++ "3" ++ gap ++ "b" ++ after
        ∧ words before = ["é", "("] ∧ words after = [")"] ∧ gap ≠ "" ∧ isBlankText gap = true := by
  have hwords : words "é(3\u00a0b)" = ["é", "("] ++ "3" :: "b" :: [")"] := by decide +kernel
  exact ⟨hwords, (words_eq_scan _).2.2.apart _ _ _ _ hwords (by decide) (by decide)⟩

end Calculator.Text
