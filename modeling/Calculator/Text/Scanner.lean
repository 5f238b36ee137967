/-
Words by a scan: the same words as `Text.words` finds, read off in one pass.

The scan goes through the text character by character and keeps the part of
a word that it has seen. A blank ends that part; a parenthesis ends it and is
a word itself; any other character prolongs it; the end of the text ends it.
A part without characters is no word.
-/
import Calculator.Text.Words

namespace Calculator.Text

/-- The part of a word that has been read so far, as a word if there is
anything in it. -/
def flush (seen : List Char) : List (List Char) := if seen = [] then [] else [seen]

/-- The words of a text in front of which `seen` has been read already. -/
def scan (seen : List Char) : List Char → List (List Char)
  | [] => flush seen
  | c :: rest =>
    if isBlank c then flush seen ++ scan [] rest
    else if isParenthesis c then flush seen ++ [c] :: scan [] rest
    else scan (seen ++ [c]) rest

end Calculator.Text
