/-
Reading the texts of a box back, and what drawing one relies on.

# Reading

A box is a text of seven lines. Of the second and the sixth drop the edge and
the margin in front, the edge at the end and the spaces that fill the row.
What is left is the expression and the result, if neither has a line feed in
it or a space at its end. An expression with line feeds makes more lines, but
the result stays in the last line but one.

# Drawing

How many spaces fill a row is a difference of natural numbers. `row` takes it
as zero where the text is too long; `row?` draws a row only where the
difference is one, so that it tells whether the box is ever too narrow.
-/
import Calculator.Box
import Mathlib.Data.List.DropRight
import Mathlib.Data.Nat.PSub

namespace Calculator.Box

-- ==================================================================== reading

/-- The text can be read back from a row. -/
structure Legible (text : String) : Prop where
  oneLine : '\n' ∉ text.toList
  noSpace : text.toList.getLast? ≠ some ' '

instance (text : String) : Decidable (Legible text) :=
  decidable_of_iff ('\n' ∉ text.toList ∧ text.toList.getLast? ≠ some ' ')
    ⟨fun h => ⟨h.1, h.2⟩, fun h => ⟨h.oneLine, h.noSpace⟩⟩

def textLines (text : String) : List (List Char) := text.toList.splitOn '\n'

/-- The text in a row. -/
def slot (line : List Char) : String :=
  String.ofList ((line.drop 3).dropLast.rdropWhile (· == ' '))

/-- The texts in the second and the sixth of seven lines. -/
def readBack (text : String) : Option (String × String) :=
  match textLines text with
  | [_, expression, _, _, _, result, _] => some (slot expression, slot result)
  | _ => none

/-- The text in the last line but one, however many lines there are. -/
def shownResult (text : String) : Option String :=
  match (textLines text).reverse with
  | _ :: result :: _ => some (slot result)
  | _ => none

-- ==================================================================== drawing

/-- What the five rows hold. -/
def rowTexts (expression result : String) : List String := [expression, "", "=", "", result]

/-- A row with a text at its left margin, if there are columns enough. -/
def row? (columns : Nat) (text : String) : Option String := do
  let inside ← columns.psub margin
  let fill ← inside.psub text.length
  return "│" ++ filled ' ' margin ++ text ++ filled ' ' fill ++ "│"

/-- The box, if every row has columns enough. -/
def draw? (expression result : String) : Option String := do
  let columns := width expression result
  let rows ← (rowTexts expression result).mapM (row? columns)
  return "\n".intercalate
    (("┌" ++ filled '─' columns ++ "┐") :: rows ++ ["└" ++ filled '─' columns ++ "┘"])

end Calculator.Box
