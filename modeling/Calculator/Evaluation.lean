/-
Evaluating a text.

A text of blanks has no result, which is not a fault. Of any other text the
machine takes one word after the other, so the first fault in reading order
is the one reported, be it a word that means nothing or a token that does not
fit, and whatever follows it. Only a text that was taken to its end can have
the faults of an end.
-/
import Calculator.Binary64.Arithmetic
import Calculator.Machine

namespace Calculator

/-- The value of an expression, `none` for a text of blanks. -/
def evaluate (text : String) : Except Fault (Option Binary64) :=
  if Text.trim text = "" then .ok none
  else
    match Machine.empty.run (tokens text) with
    | .ok m => m.finish.map some
    | .error failure => .error failure.fault

end Calculator
