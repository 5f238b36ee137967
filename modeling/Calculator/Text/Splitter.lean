/-
Words by splitters, each within the pieces of the one before.

The text is split at blanks, and every part that is left is cut behind each
of its parentheses, so that a parenthesis can stand only at the end of a
piece. There it is cut off. Empty parts come up in the first and the last of
these steps and are dropped.
-/
import Calculator.Text.Words

namespace Calculator.Text

/-- The parts of a text between its blanks. -/
def unblanked (text : List Char) : List (List Char) :=
  (text.splitOnP isBlank).filter fun part => !part.isEmpty

/-- A text cut behind each parenthesis. Nothing follows a parenthesis that is
the last character, not even an empty piece. -/
def cutBehind : List Char → List (List Char)
  | [] => []
  | c :: rest =>
    if isParenthesis c then [c] :: cutBehind rest
    else
      match cutBehind rest with
      | [] => [[c]]
      | piece :: pieces => (c :: piece) :: pieces

/-- A piece without the parenthesis at its end, and that parenthesis. -/
def cutOff (piece : List Char) : List (List Char) :=
  let cut := if piece.getLast?.any isParenthesis then piece.length - 1 else piece.length
  [piece.take cut, piece.drop cut].filter fun part => !part.isEmpty

/-- The words of a part without blanks. -/
def partWords (part : List Char) : List (List Char) := (cutBehind part).flatMap cutOff

/-- The words of a text, by splitters. -/
def splitWords (text : List Char) : List (List Char) := (unblanked text).flatMap partWords

end Calculator.Text
