/-
The classes of words, each by itself.

`Token.ofWord` tries a word as a parenthesis, as an operator and as a number,
and the first that fits is taken. Here the three attempts are apart, as
readers of their own, so that they can be tried in any order; and `Writes`
says without any reader which words write which tokens: the two parentheses,
the four symbols, and the words that the grammar of numerals spells.
-/
import Calculator.Token

namespace Calculator.Token

-- ================================================================== readers

def parenthesis? (word : String) : Option (Token Binary64) :=
  if word = "(" then some opening else if word = ")" then some closing else none

def operator? (word : String) : Option (Token Binary64) :=
  (Operator.ofSymbol? word).map operator

def number? (word : String) : Option (Token Binary64) := (Binary64.read? word).map number

/-- A reader for each class of words. -/
def readers : List (String → Option (Token Binary64)) := [parenthesis?, operator?, number?]

/-- What a word is by the first of some readers that takes it. -/
def ofWordBy (order : List (String → Option (Token Binary64))) (word : String) :
    Except Fault (Token Binary64) :=
  match order.findSome? fun reader => reader word with
  | some t => .ok t
  | none => .error (.unknownWord word)

-- =============================================================== the classes

/-- The word writes the token. -/
inductive Writes : String → Token Binary64 → Prop
  | opening : Writes "(" .opening
  | closing : Writes ")" .closing
  | operator (o : Operator) : Writes (String.singleton o.symbol) (.operator o)
  | number {n : Numeral} (h : n.WellFormed) : Writes (String.ofList n.spell) (.number n.value)

end Calculator.Token
