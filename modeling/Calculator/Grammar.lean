/-
The grammar of expressions, and the tree of each sentence.

    expression  ::=  term    |  expression (+|-) term
    term        ::=  factor  |  term (*|/) factor
    factor      ::=  number  |  ( expression )

The grammar says by its shape what a calculator is expected to respect: the
operators of the second line bind tighter than those of the first, operators
of one line group from the left, and parentheses override both. It mentions
neither stacks nor precedences.
-/
import Calculator.Token
import Calculator.Tree

namespace Calculator

/-- What the lines of the grammar define. -/
inductive Category where
  | expression
  | term
  | factor
  deriving DecidableEq, Repr

/-- `Derives category tokens tree`: the tokens are a phrase of the category,
and the tree is how the grammar groups them. -/
inductive Derives {α : Type} : Category → List (Token α) → Tree α → Prop where
  | number (value : α) : Derives .factor [.number value] (.leaf value)
  | group {inner : List (Token α)} {t : Tree α} (h : Derives .expression inner t) :
    Derives .factor (.opening :: (inner ++ [.closing])) t
  | ofFactor {tokens : List (Token α)} {t : Tree α} (h : Derives .factor tokens t) :
    Derives .term tokens t
  | product {left right : List (Token α)} {s t : Tree α} {o : Operator}
    (ho : o = .mul ∨ o = .div) (hs : Derives .term left s) (ht : Derives .factor right t) :
    Derives .term (left ++ .operator o :: right) (.node o s t)
  | ofTerm {tokens : List (Token α)} {t : Tree α} (h : Derives .term tokens t) :
    Derives .expression tokens t
  | sum {left right : List (Token α)} {s t : Tree α} {o : Operator}
    (ho : o = .add ∨ o = .sub) (hs : Derives .expression left s) (ht : Derives .term right t) :
    Derives .expression (left ++ .operator o :: right) (.node o s t)

/-- The tokens are an expression. -/
def Sentence {α : Type} (tokens : List (Token α)) : Prop :=
  ∃ t, Derives .expression tokens t

end Calculator
