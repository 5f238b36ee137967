/-
The box is drawn whole and its texts are read back.

The width makes room for the longer text and for its margins, so no row is
refused (`draw?_eq`). All lines are of one length, and they are what the box is
cut into at its line feeds, as long as the texts have none of their own.

What follows a text in its row is dropped again, but no character of the text
is, if its last one is not a space. Line feeds in the expression cut its row
into more lines, but none of the two lines at the end, so the result is read
back all the same (`shownResult_draw`).
-/
import Calculator.Box.Reading

namespace Calculator.Box

variable {expression result text : String} {columns : Nat}

-- ==================================================================== drawing

/-- The texts of the five rows fit into the box. -/
theorem margin_add_length_le (h : text ∈ rowTexts expression result) :
    margin + text.length ≤ width expression result := by
  have hlength : text.length ≤ max expression.length result.length + 1 := by
    simp only [rowTexts, List.mem_cons, List.not_mem_nil, or_false] at h
    rcases h with rfl | rfl | rfl | rfl | rfl
    · omega
    · exact Nat.zero_le _
    · exact Nat.le_add_left 1 _
    · exact Nat.zero_le _
    · omega
  unfold width margin
  omega

/-- A row that has room is not refused. -/
theorem row?_eq (fits : margin + text.length ≤ columns) :
    row? columns text = some (row columns text) := by
  have hmargin : columns.psub margin = some (columns - margin) := Nat.psub_eq_sub (by omega)
  have hfill : (columns - margin).psub text.length = some (columns - margin - text.length) :=
    Nat.psub_eq_sub (by omega)
  rw [row?, hmargin, Option.bind_eq_bind, Option.bind_some, hfill]
  rfl

theorem mapM_row?_eq {texts : List String}
    (fits : ∀ text ∈ texts, margin + text.length ≤ columns) :
    texts.mapM (row? columns) = some (texts.map (row columns)) := by
  induction texts with
  | nil => rfl
  | cons text rest ih =>
      rw [List.mapM_cons, row?_eq (fits text List.mem_cons_self),
        ih fun text h => fits text (List.mem_cons_of_mem _ h)]
      rfl

/-- Every box can be drawn. -/
theorem draw?_eq (expression result : String) :
    draw? expression result = some (draw expression result) := by
  rw [draw?, mapM_row?_eq fun text h => margin_add_length_le h]
  rfl

-- ====================================================================== lines

def edge (left right : String) (columns : Nat) : String := left ++ filled '─' columns ++ right

/-- What a line of the box is. -/
inductive IsLine (expression result : String) : String → Prop
  | top : IsLine expression result (edge "┌" "┐" (width expression result))
  | bottom : IsLine expression result (edge "└" "┘" (width expression result))
  | row {text : String} (h : text ∈ rowTexts expression result) :
    IsLine expression result (row (width expression result) text)

/-- Each of the lines is an edge, an empty row or a row with one of the two
texts. -/
theorem isLine_of_mem_lines {line : String} (h : line ∈ lines expression result) :
    IsLine expression result line := by
  have hlines : lines expression result = edge "┌" "┐" (width expression result)
      :: ((rowTexts expression result).map (row (width expression result))
        ++ [edge "└" "┘" (width expression result)]) := rfl
  rw [hlines] at h
  rcases List.mem_cons.1 h with rfl | h
  · exact IsLine.top
  · rcases List.mem_append.1 h with h | h
    · obtain ⟨text, htext, rfl⟩ := List.mem_map.1 h
      exact IsLine.row htext
    · rw [List.mem_singleton.1 h]
      exact IsLine.bottom

theorem length_edge (left right : String) (columns : Nat) :
    (edge left right columns).length = left.length + columns + right.length := by
  rw [edge, String.length_append, String.length_append, length_filled]

/-- All of these are equally long: the longer text, its margins and the two
sides. -/
theorem IsLine.length {line : String} (h : IsLine expression result line) :
    line.length = max expression.length result.length + 6 := by
  have hwidth : width expression result + 2 = max expression.length result.length + 6 := rfl
  have hcorner : "┌".length = 1 ∧ "┐".length = 1 ∧ "└".length = 1 ∧ "┘".length = 1 :=
    ⟨rfl, rfl, rfl, rfl⟩
  cases h with
  | top =>
      rw [length_edge]
      omega
  | bottom =>
      rw [length_edge]
      omega
  | row htext => rw [length_row (margin_add_length_le htext), hwidth]

/-- A row, character by character. -/
theorem toList_row (columns : Nat) (text : String) : (row columns text).toList
    = ['│', ' ', ' '] ++ (text.toList ++ List.replicate (columns - margin - text.length) ' ')
      ++ ['│'] := by
  have hedge : "│".toList = ['│'] := rfl
  have hmargin : (filled ' ' margin).toList = [' ', ' '] := rfl
  rw [row, String.toList_append, String.toList_append, String.toList_append, String.toList_append,
    hmargin, hedge, filled, String.toList_ofList, List.append_assoc _ text.toList]
  rfl

theorem newline_not_mem_replicate {c : Char} (hc : '\n' ≠ c) (count : Nat) :
    '\n' ∉ List.replicate count c := fun h => hc (List.eq_of_mem_replicate h)

theorem newline_not_mem_edge {left right : String} (hleft : '\n' ∉ left.toList)
    (hright : '\n' ∉ right.toList) (columns : Nat) : '\n' ∉ (edge left right columns).toList := by
  have hline := newline_not_mem_replicate (c := '─') (by decide) columns
  rw [edge, filled, String.toList_append, String.toList_append, String.toList_ofList,
    List.mem_append, List.mem_append]
  exact fun h => h.elim (fun h => h.elim hleft hline) hright

/-- A row is one line if its text is. -/
theorem newline_not_mem_row (columns : Nat) (h : '\n' ∉ text.toList) :
    '\n' ∉ (row columns text).toList := by
  have hspaces := newline_not_mem_replicate (c := ' ') (by decide) (columns - margin - text.length)
  have hfront : '\n' ∉ ['│', ' ', ' '] := by decide
  have hback : '\n' ∉ ['│'] := by decide
  rw [toList_row, List.mem_append, List.mem_append, List.mem_append]
  exact fun hmem => hmem.elim (fun hmem => hmem.elim hfront fun hmem => hmem.elim h hspaces) hback

/-- A line has no line feed if the texts have none. -/
theorem IsLine.oneLine {line : String} (h : IsLine expression result line)
    (hexpression : '\n' ∉ expression.toList) (hresult : '\n' ∉ result.toList) :
    '\n' ∉ line.toList := by
  cases h with
  | top => exact newline_not_mem_edge (by decide) (by decide) _
  | bottom => exact newline_not_mem_edge (by decide) (by decide) _
  | row htext =>
      apply newline_not_mem_row
      simp only [rowTexts, List.mem_cons, List.not_mem_nil, or_false] at htext
      rcases htext with rfl | rfl | rfl | rfl | rfl
      · exact hexpression
      · decide
      · decide
      · decide
      · exact hresult

/-- Two texts of one line each give a box that is cut into the lines it was
made of. -/
theorem textLines_draw (hexpression : '\n' ∉ expression.toList) (hresult : '\n' ∉ result.toList) :
    textLines (draw expression result) = (lines expression result).map String.toList := by
  have hbreak : "\n".toList = ['\n'] := rfl
  rw [textLines, draw, String.toList_intercalate, hbreak]
  refine List.splitOn_intercalate '\n' (fun l hl => ?_) (List.cons_ne_nil _ _)
  obtain ⟨line, hline, rfl⟩ := List.mem_map.1 hl
  exact (isLine_of_mem_lines hline).oneLine hexpression hresult

-- ==================================================================== reading

/-- Spaces behind a text are dropped, and no character of it. -/
theorem rdropWhile_append_replicate {text : List Char} (h : text.getLast? ≠ some ' ') (count : Nat) :
    (text ++ List.replicate count ' ').rdropWhile (· == ' ') = text := by
  have hspaces : ∀ c ∈ List.replicate count ' ', (c == ' ') = true := fun c hc => by
    rw [List.eq_of_mem_replicate hc]
    rfl
  have hself : text.rdropWhile (· == ' ') = text := by
    refine List.rdropWhile_eq_self_iff.2 fun hne hlast => h ?_
    rw [List.getLast?_eq_some_getLast hne, eq_of_beq hlast]
  rw [List.rdropWhile, List.reverse_append, List.reverse_replicate,
    List.dropWhile_append_of_pos hspaces]
  exact hself

/-- What is dropped from a row is not the text's. -/
theorem slot_row (columns : Nat) (h : text.toList.getLast? ≠ some ' ') :
    slot (row columns text).toList = text := by
  have hbehind : (row columns text).toList.drop 3
      = text.toList ++ List.replicate (columns - margin - text.length) ' ' ++ ['│'] := by
    rw [toList_row, List.append_assoc]
    rfl
  rw [slot, hbehind, List.dropLast_concat, rdropWhile_append_replicate h, String.ofList_toList]

/-- The box gives its texts back. -/
theorem readBack_draw (hexpression : Legible expression) (hresult : Legible result) :
    readBack (draw expression result) = some (expression, result) := by
  have hlines : (lines expression result).map String.toList
      = [_, (row (width expression result) expression).toList, _, _, _,
        (row (width expression result) result).toList, _] := rfl
  rw [readBack, textLines_draw hexpression.oneLine hresult.oneLine, hlines]
  show some (slot _, slot _) = some (expression, result)
  rw [slot_row _ hexpression.noSpace, slot_row _ hresult.noSpace]

/-- A line feed separates what is in front of it from what follows, line by
line. -/
theorem textLines_append_newline (first second : String) :
    textLines (first ++ "\n" ++ second) = textLines first ++ textLines second := by
  have hbreak : (first ++ "\n" ++ second).toList = first.toList ++ '\n' :: second.toList := by
    rw [String.append_assoc, String.toList_append, String.toList_append]
    rfl
  rw [textLines, hbreak]
  exact List.splitOnP_append_cons first.toList second.toList rfl

theorem textLines_of_oneLine (h : '\n' ∉ text.toList) : textLines text = [text.toList] := by
  have hself := List.splitOn_intercalate '\n' (List.forall_mem_singleton.2 h) (List.cons_ne_nil _ _)
  rwa [List.intercalate_singleton] at hself

/-- The result is read from the box, line feeds in the expression or not. -/
theorem shownResult_draw (expression : String) (hresult : Legible result) :
    shownResult (draw expression result) = some result := by
  let columns := width expression result
  let above := edge "┌" "┐" columns
    :: [row columns expression, row columns "", row columns "=", row columns ""]
  have hlines : lines expression result = above ++ [row columns result, edge "└" "┘" columns] := rfl
  have hbelow : "\n".intercalate [row columns result, edge "└" "┘" columns]
      = row columns result ++ "\n" ++ edge "└" "┘" columns := by
    rw [String.intercalate_cons_cons, String.intercalate_singleton]
  have hdraw : draw expression result
      = "\n".intercalate above ++ "\n" ++ (row columns result ++ "\n" ++ edge "└" "┘" columns) := by
    rw [draw, hlines, String.intercalate_append_of_ne_nil (List.cons_ne_nil _ _)
      (List.cons_ne_nil _ _), hbelow]
  have hrow : '\n' ∉ (row columns result).toList := newline_not_mem_row columns hresult.oneLine
  have hedge : '\n' ∉ (edge "└" "┘" columns).toList :=
    newline_not_mem_edge (by decide) (by decide) columns
  rw [shownResult, hdraw, textLines_append_newline, textLines_append_newline,
    textLines_of_oneLine hrow, textLines_of_oneLine hedge, List.reverse_append]
  show some (slot _) = some result
  rw [slot_row columns hresult.noSpace]

end Calculator.Box
