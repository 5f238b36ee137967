/-
How answers are written.

A number is written in plain decimal form, with as few digits as read back as
the same number. Zero has no sign in writing, and neither has what is not a
number.
-/
import Calculator.Decimal.Plain
import Calculator.Decimal.Shortest
import Calculator.Fault

namespace Calculator

def Binary64.text : Binary64 → String
  | nan => "NaN"
  | infinity false => "inf"
  | infinity true => "-inf"
  | finite negative rank =>
    if rank.val = 0 then "0"
    else
      let digits := (Decimal.shortest rank).plain
      String.ofList (if negative then '-' :: digits else digits)

/-- The text of a result, which may be missing. -/
def resultText : Option Binary64 → String
  | none => "no result"
  | some x => x.text

/-- The text that answers an expression: its result, or what is wrong with
it. -/
def answerText : Except Fault (Option Binary64) → String
  | .ok result => resultText result
  | .error fault => fault.message

end Calculator
