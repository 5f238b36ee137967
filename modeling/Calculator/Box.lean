/-
The box that shows an expression above its result.

Seven lines, all of one length: the two edges, and between them five rows
that hold the expression, nothing, an equals sign, nothing, and the result.
Texts are indented by two columns and the longer of them is followed by two
more; the rest of each row is filled with spaces. A column is a code point.
-/

namespace Calculator.Box

/-- The columns kept free on either side of the longest text. -/
def margin : Nat := 2

def width (expression result : String) : Nat :=
  max expression.length result.length + 2 * margin

/-- A number of equal characters. -/
def filled (c : Char) (count : Nat) : String := String.ofList (List.replicate count c)

/-- A row of so many columns with a text at its left margin. -/
def row (columns : Nat) (text : String) : String :=
  "│" ++ filled ' ' margin ++ text ++ filled ' ' (columns - margin - text.length) ++ "│"

theorem length_filled (c : Char) (count : Nat) : (filled c count).length = count := by
  simp [filled]

/-- A text that fits beside its margin fills its row, no less and no more. -/
theorem length_row {columns : Nat} {text : String} (fits : margin + text.length ≤ columns) :
    (row columns text).length = columns + 2 := by
  have hedge : "│".length = 1 := rfl
  simp only [row, String.length_append, length_filled, hedge]
  omega

/-- The lines of the box from top to bottom. -/
def lines (expression result : String) : List String :=
  let columns := width expression result
  ["┌" ++ filled '─' columns ++ "┐",
    row columns expression,
    row columns "",
    row columns "=",
    row columns "",
    row columns result,
    "└" ++ filled '─' columns ++ "┘"]

/-- The box as one text, a line feed between lines and none at the end. -/
def draw (expression result : String) : String :=
  "\n".intercalate (lines expression result)

end Calculator.Box
