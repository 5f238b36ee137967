/-
Where an operator looks for its operands.

# Right operands

The right operand of an operator reaches as far as what follows binds tighter:
to the next operator of the same group that binds no tighter, to the end of
the group, or to the end of the text. In between stands a `Stretch`. Of the
order of numbers and operators a stretch says nothing, so an operator has a
right operand in this sense whether or not it is an expression.

# Gaps

A gap is a place where the text misses an operand: none ends in front of it
and none begins behind it. An operator lacks an operand if there is a gap
beside it.
-/
import Calculator.Token

namespace Calculator

variable {α : Type}

/-- Tokens whose parentheses match and whose operators, where they are not in
parentheses, bind tighter than a level. -/
inductive Stretch : Nat → List (Token α) → Prop
  | nil {level : Nat} : Stretch level []
  | number {level : Nat} (value : α) : Stretch level [.number value]
  | operator {level : Nat} {o : Operator} (h : level < o.precedence) : Stretch level [.operator o]
  | group {level : Nat} {inside : List (Token α)} (h : Stretch 0 inside) :
    Stretch level (.opening :: (inside ++ [.closing]))
  | append {level : Nat} {first second : List (Token α)} (h₁ : Stretch level first)
    (h₂ : Stretch level second) : Stretch level (first ++ second)

/-- The tokens `right` are the right operand of an operator in front of them:
what follows ends the operand, or nothing follows. -/
structure RightOperand (o : Operator) (right : List (Token α))
    (after : List (Except Fault (Token α))) : Prop where
  stretch : Stretch o.precedence right
  ends : ∀ item ∈ after.head?,
    item = .ok .closing ∨ ∃ p : Operator, item = .ok (.operator p) ∧ p.precedence ≤ o.precedence

/-- No operand ends here: in front there is nothing, an operator or an opening
parenthesis. -/
def NoneEnds (before : List (Except Fault (Token α))) : Prop :=
  ∀ item ∈ before.getLast?, item = .ok .opening ∨ ∃ p, item = .ok (.operator p)

/-- No operand begins here: behind there is nothing, an operator or a closing
parenthesis. -/
def NoneBegins (after : List (Except Fault (Token α))) : Prop :=
  ∀ item ∈ after.head?, item = .ok .closing ∨ ∃ p, item = .ok (.operator p)

/-- An operand is missing between the two. -/
structure Gap (before after : List (Except Fault (Token α))) : Prop where
  front : NoneEnds before
  back : NoneBegins after

/-- There is a gap at one of the places before, between and behind the tokens
`ts`, which stand between `front` and `after`. -/
def GapIn (front ts : List (Token α)) (after : List (Except Fault (Token α))) : Prop :=
  ∃ fore back, ts = fore ++ back ∧ Gap ((front ++ fore).map .ok) (back.map .ok ++ after)

/-- At this place of the items stands the operator, and on one side of it or
on the other no operand. -/
structure LacksOperand (items : List (Except Fault (Token α))) (o : Operator)
    (before after : List (Except Fault (Token α))) : Prop where
  split : items = before ++ .ok (.operator o) :: after
  beside : NoneEnds before ∨ NoneBegins after

end Calculator
