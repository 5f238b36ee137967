/-
Tokens: what the words of an expression stand for.

A word is tried as a parenthesis, as an operator and as a number, and if it
is none of them it is a fault that quotes the word. No word belongs to two of
the classes: a sign alone is an operator, and a number word has a digit or a
letter in it.

Tokens are taken over any type of values, since all that happens to them
later treats the number they may carry as a sealed parcel.
-/
import Calculator.Fault
import Calculator.Numeral
import Calculator.Text.Words

namespace Calculator

/-- A token whose numbers are values of type `α`. -/
inductive Token (α : Type) where
  | number (value : α)
  | operator (operator : Operator)
  | opening
  | closing
  deriving DecidableEq, Repr

namespace Token

/-- The same token with another number in its place. -/
def map {α β : Type} (f : α → β) : Token α → Token β
  | number value => number (f value)
  | operator o => operator o
  | opening => opening
  | closing => closing

def ofWord (word : String) : Except Fault (Token Binary64) :=
  if word = "(" then .ok opening
  else if word = ")" then .ok closing
  else
    match Operator.ofSymbol? word with
    | some o => .ok (operator o)
    | none =>
      match Binary64.read? word with
      | some value => .ok (number value)
      | none => .error (.unknownWord word)

end Token

/-- The tokens of a text in order, each word that stands for none with its
fault in its place. -/
def tokens (text : String) : List (Except Fault (Token Binary64)) :=
  (Text.words text).map Token.ofWord

end Calculator
