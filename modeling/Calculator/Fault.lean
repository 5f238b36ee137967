/-
The reasons why an expression has no value.

There are five, and the calculator stops at the first it meets. None of them
speaks of numbers: dividing by zero is not a fault, its result is an infinity
or not a number.
-/
import Calculator.Operator

namespace Calculator

/-- Why an expression cannot be evaluated. -/
inductive Fault where
  /-- A closing parenthesis with no open group before it. -/
  | unopenedGroup
  /-- An opening parenthesis whose group the text does not close. -/
  | unclosedGroup
  /-- A word that is neither a parenthesis nor an operator nor a number. -/
  | unknownWord (word : String)
  /-- An operator that finds fewer than two values. -/
  | missingOperand (operator : Operator)
  /-- At the end there is no value, or there are several. -/
  | notOneValue
  deriving DecidableEq, Repr

/-- What the user is told. A word is quoted as it was written. -/
def Fault.message : Fault → String
  | unopenedGroup => "unmatched ')'"
  | unclosedGroup => "unmatched '('"
  | unknownWord word => "invalid token: " ++ word
  | missingOperand operator =>
    "not enough operands for operator " ++ String.singleton operator.symbol
  | notOneValue => "invalid expression"

end Calculator
