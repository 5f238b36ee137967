/-
Three ways to find the words of a text.

A scan is told by what it does at the end, at a blank and at a parenthesis,
each time with ordinary characters in front that are read and not yet
written. Whatever obeys these three rules is the scan (`eq_scan`). The
longest ordinary runs obey them, since a text can be cut at every character
that is not ordinary; and so do the nested splitters, where a blank ends a
part and a parenthesis ends a piece of a part.
-/
import Calculator.Proofs.Text.Layout
import Calculator.Text.Scanner
import Calculator.Text.Splitter

namespace Calculator.Text

-- ================================================================= the scan

theorem not_isBlank_of_isParenthesis {c : Char} (h : isParenthesis c = true) :
    isBlank c = false := by
  rw [isParenthesis, Bool.or_eq_true, decide_eq_true_eq, decide_eq_true_eq] at h
  rcases h with rfl | rfl
  · rfl
  · rfl

theorem isOrdinary_iff {c : Char} :
    isOrdinary c = true ↔ isBlank c = false ∧ isParenthesis c = false := by
  rw [isOrdinary, Bool.and_eq_true, Bool.not_eq_true', Bool.not_eq_true']

/-- The three kinds of characters. -/
theorem blank_or_parenthesis_or_ordinary (c : Char) :
    isBlank c = true ∨ isParenthesis c = true ∨ isOrdinary c = true := by
  rw [isOrdinary_iff]
  cases isBlank c <;> cases isParenthesis c <;> simp

/-- What reads the ordinary characters in front of the end, of a blank and of
a parenthesis as the scan does, and then goes on behind them, is the scan. -/
theorem eq_scan {f : List Char → List (List Char)}
    (hend : ∀ seen, (∀ c ∈ seen, isOrdinary c = true) → f seen = flush seen)
    (hblank : ∀ seen c rest, (∀ c ∈ seen, isOrdinary c = true) → isBlank c = true →
      f (seen ++ c :: rest) = flush seen ++ f rest)
    (hparen : ∀ seen c rest, (∀ c ∈ seen, isOrdinary c = true) → isParenthesis c = true →
      f (seen ++ c :: rest) = flush seen ++ [c] :: f rest)
    {seen : List Char} (hseen : ∀ c ∈ seen, isOrdinary c = true) (text : List Char) :
    f (seen ++ text) = scan seen text := by
  induction text generalizing seen with
  | nil =>
      rw [List.append_nil]
      exact hend seen hseen
  | cons c rest ih =>
      have hrest : f ([] ++ rest) = scan [] rest := ih (List.forall_mem_nil _)
      rw [List.nil_append] at hrest
      rcases blank_or_parenthesis_or_ordinary c with hc | hc | hc
      · rw [hblank seen c rest hseen hc, hrest, scan, if_pos hc]
      · rw [hparen seen c rest hseen hc, hrest, scan, not_isBlank_of_isParenthesis hc, hc]
        rfl
      · have hmore : ∀ d ∈ seen ++ [c], isOrdinary d = true := by
          simpa [or_imp, forall_and] using ⟨hseen, hc⟩
        obtain ⟨hnot, hnone⟩ := isOrdinary_iff.1 hc
        rw [List.append_cons, ih hmore, scan, hnot, hnone]
        rfl

/-- Nothing but the blanks is lost. -/
theorem flatten_scan (seen text : List Char) :
    (scan seen text).flatten = seen ++ text.filter fun c => !isBlank c := by
  have hflush : ∀ seen : List Char, (flush seen).flatten = seen := by
    intro seen
    cases seen <;> simp [flush]
  induction text generalizing seen with
  | nil => rw [scan, hflush, List.filter_nil, List.append_nil]
  | cons c rest ih =>
      rcases blank_or_parenthesis_or_ordinary c with hc | hc | hc
      · rw [scan, if_pos hc, List.flatten_append, hflush, ih, List.nil_append]
        simp [hc]
      · have hnot := not_isBlank_of_isParenthesis hc
        rw [scan, hnot, if_neg Bool.false_ne_true, if_pos hc, List.flatten_append, hflush,
          List.flatten_cons, ih]
        simp [hnot]
      · obtain ⟨hnot, hnone⟩ := isOrdinary_iff.1 hc
        rw [scan, hnot, hnone, if_neg Bool.false_ne_true, if_neg Bool.false_ne_true, ih]
        simp [hnot]

-- ============================================================ the longest runs

/-- Ordinary characters in a row are one piece, or none. -/
theorem pieces_of_seen {seen : List Char} (h : ∀ c ∈ seen, isOrdinary c = true) :
    pieces seen = flush seen := by
  by_cases hne : seen = []
  · rw [hne]
    rfl
  · rw [pieces_of_isOrdinary hne h, flush, if_neg hne]

theorem pieces_singleton (c : Char) : pieces [c] = if isBlank c then [] else [[c]] := by
  cases hc : isBlank c <;> simp [pieces, List.splitBy, List.splitBy.loop, hc]

/-- Where a character is not ordinary, there is a cut on either side of it. -/
theorem pieces_append_cons {c : Char} (h : isOrdinary c = false) (seen rest : List Char) :
    pieces (seen ++ c :: rest) = pieces seen ++ (pieces [c] ++ pieces rest) := by
  have hbefore : pieces (seen ++ c :: rest) = pieces seen ++ pieces ([c] ++ rest) :=
    pieces_append fun _ _ d hd => Or.inr (by cases hd; exact h)
  have hbehind : pieces ([c] ++ rest) = pieces [c] ++ pieces rest :=
    pieces_append fun d hd _ _ => Or.inl (by cases hd; exact h)
  rw [hbefore, hbehind]

/-- Cutting a text and scanning it come to the same. -/
theorem pieces_eq_scan (text : List Char) : pieces text = scan [] text := by
  refine eq_scan (f := pieces) (fun _ => pieces_of_seen) ?_ ?_ (List.forall_mem_nil _) text
  · intro seen c rest hseen hc
    have hpiece : pieces [c] = [] := by rw [pieces_singleton, if_pos hc]
    rw [pieces_append_cons (isOrdinary_of_isBlank hc), pieces_of_seen hseen, hpiece,
      List.nil_append]
  · intro seen c rest hseen hc
    have hpiece : pieces [c] = [[c]] := by
      rw [pieces_singleton, not_isBlank_of_isParenthesis hc, if_neg Bool.false_ne_true]
    rw [pieces_append_cons (isOrdinary_of_isParenthesis hc), pieces_of_seen hseen, hpiece,
      List.singleton_append]

-- ======================================================== the nested splitters

/-- The first splitter does not cut ordinary characters. -/
theorem cutBehind_of_ordinary {seen : List Char} (hseen : ∀ c ∈ seen, isOrdinary c = true) :
    cutBehind seen = flush seen := by
  induction seen with
  | nil => rfl
  | cons d seen ih =>
      obtain ⟨hd, hseen⟩ := List.forall_mem_cons.1 hseen
      rw [cutBehind, (isOrdinary_iff.1 hd).2, if_neg Bool.false_ne_true, ih hseen]
      cases seen <;> rfl

/-- A piece ends at the first parenthesis. -/
theorem cutBehind_append_cons {seen : List Char} {c : Char}
    (hseen : ∀ c ∈ seen, isOrdinary c = true) (hc : isParenthesis c = true) (rest : List Char) :
    cutBehind (seen ++ c :: rest) = (seen ++ [c]) :: cutBehind rest := by
  induction seen with
  | nil => rw [List.nil_append, cutBehind, if_pos hc, List.nil_append]
  | cons d seen ih =>
      obtain ⟨hd, hseen⟩ := List.forall_mem_cons.1 hseen
      rw [List.cons_append, cutBehind, (isOrdinary_iff.1 hd).2, if_neg Bool.false_ne_true, ih hseen]
      rfl

theorem cutOff_of_ordinary {seen : List Char} (hseen : ∀ c ∈ seen, isOrdinary c = true) :
    cutOff seen = flush seen := by
  have hlast : ¬ seen.getLast?.any isParenthesis = true := by
    rw [Option.any_eq_true]
    rintro ⟨c, hc, hparen⟩
    have hordinary := hseen c (List.mem_of_getLast? hc)
    rw [isOrdinary_of_isParenthesis hparen] at hordinary
    cases hordinary
  rw [cutOff, if_neg hlast, List.take_length, List.drop_length, flush]
  cases seen <;> rfl

/-- It cuts off a parenthesis at the end. -/
theorem cutOff_append_parenthesis {c : Char} (hc : isParenthesis c = true) (seen : List Char) :
    cutOff (seen ++ [c]) = flush seen ++ [[c]] := by
  have hlast : (seen ++ [c]).getLast?.any isParenthesis = true := by simpa using hc
  have hcut : (seen ++ [c]).length - 1 = seen.length := by simp
  rw [cutOff, if_pos hlast, hcut, List.take_left, List.drop_left, flush]
  cases seen <;> rfl

theorem partWords_of_ordinary {seen : List Char} (hseen : ∀ c ∈ seen, isOrdinary c = true) :
    partWords seen = flush seen := by
  rw [partWords, cutBehind_of_ordinary hseen, flush]
  split
  case isTrue => rfl
  case isFalse hne =>
    rw [List.flatMap_singleton, cutOff_of_ordinary hseen, flush, if_neg hne]

/-- And at a parenthesis they cut on both sides. -/
theorem partWords_append_cons {seen : List Char} {c : Char}
    (hseen : ∀ c ∈ seen, isOrdinary c = true) (hc : isParenthesis c = true) (rest : List Char) :
    partWords (seen ++ c :: rest) = flush seen ++ [c] :: partWords rest := by
  rw [partWords, cutBehind_append_cons hseen hc, List.flatMap_cons, cutOff_append_parenthesis hc,
    List.append_assoc]
  rfl

/-- A part that is empty has no words, so it need not have been dropped. -/
theorem splitWords_eq (text : List Char) :
    splitWords text = (text.splitOnP isBlank).flatMap partWords := by
  unfold splitWords unblanked
  induction text.splitOnP isBlank with
  | nil => rfl
  | cons part parts ih =>
      match part with
      | [] => exact ih
      | c :: rest => rw [List.filter_cons_of_pos rfl, List.flatMap_cons, ih, List.flatMap_cons]

/-- What has no blanks belongs to the first part. -/
theorem exists_splitOnP_append {front : List Char} (hfront : ∀ c ∈ front, isBlank c = false)
    (rest : List Char) : ∃ part parts, rest.splitOnP isBlank = part :: parts
      ∧ (front ++ rest).splitOnP isBlank = (front ++ part) :: parts := by
  induction front with
  | nil =>
      obtain ⟨part, parts, h⟩ := List.exists_cons_of_ne_nil (List.splitOnP_ne_nil isBlank rest)
      exact ⟨part, parts, h, h⟩
  | cons c front ih =>
      obtain ⟨hc, hfront⟩ := List.forall_mem_cons.1 hfront
      obtain ⟨part, parts, hrest, h⟩ := ih hfront
      refine ⟨part, parts, hrest, ?_⟩
      rw [List.cons_append, List.splitOnP_cons_eq_if_modifyHead, hc, if_neg Bool.false_ne_true, h]
      rfl

/-- The nested splitters find what one scan finds. -/
theorem splitWords_eq_scan (text : List Char) : splitWords text = scan [] text := by
  have hpart : ∀ seen : List Char, (∀ c ∈ seen, isOrdinary c = true) →
      seen.splitOnP isBlank = [seen] := by
    intro seen hseen
    exact List.splitOnP_eq_singleton fun c hc => (isOrdinary_iff.1 (hseen c hc)).1
  refine eq_scan (f := splitWords) ?_ ?_ ?_ (List.forall_mem_nil _) text
  · intro seen hseen
    rw [splitWords_eq, hpart seen hseen, List.flatMap_singleton, partWords_of_ordinary hseen]
  · intro seen c rest hseen hc
    rw [splitWords_eq, List.splitOnP_append_cons _ _ hc, hpart seen hseen, List.flatMap_append,
      List.flatMap_singleton, partWords_of_ordinary hseen, splitWords_eq]
  · intro seen c rest hseen hc
    have hfront : ∀ d ∈ seen ++ [c], isBlank d = false := by
      simpa [or_imp, forall_and] using
        ⟨fun d hd => (isOrdinary_iff.1 (hseen d hd)).1, not_isBlank_of_isParenthesis hc⟩
    obtain ⟨part, parts, hrest, hwhole⟩ := exists_splitOnP_append hfront rest
    rw [List.append_cons, splitWords_eq, hwhole, List.flatMap_cons, ← List.append_cons,
      partWords_append_cons hseen hc, splitWords_eq, hrest, List.flatMap_cons, List.append_assoc]
    rfl

end Calculator.Text
