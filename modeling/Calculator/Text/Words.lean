/-
The words of a text.

# What a word is

A parenthesis is a word of its own wherever it stands, and everything else is
cut at blanks. So a word is a single parenthesis, or a longest run of
characters that are neither parentheses nor blanks.

# How they are found

Call a character *ordinary* if it is neither. `splitBy` cuts a text between
two neighbours unless both are ordinary. The pieces are then the longest
ordinary runs, and every other character by itself; the pieces that are one
blank are dropped.
-/
import Calculator.Text.Blank

namespace Calculator.Text

/-- Whether a character is a word by itself. -/
def isParenthesis (c : Char) : Bool := c = '(' || c = ')'

/-- Whether a character may share a word with others. -/
def isOrdinary (c : Char) : Bool := !isBlank c && !isParenthesis c

/-- The words among a text's characters. -/
def pieces (text : List Char) : List (List Char) :=
  (text.splitBy fun c d => isOrdinary c && isOrdinary d).filter fun piece =>
    !piece.any isBlank

def words (text : String) : List String := (pieces text.toList).map String.ofList

end Calculator.Text
