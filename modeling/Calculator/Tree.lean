/-
Expression trees.

A tree records how a result is put together: its leaves are the numbers in
reading order, its inner nodes the operators, and the left subtree of a node
is its left operand. Trees are values themselves. An operator joins two of
them, so the machine can be run on trees, and what it answers is then the
tree of its own applications.
-/
import Calculator.Operator

namespace Calculator

/-- A binary tree with values at its leaves and operators inside. -/
inductive Tree (α : Type) where
  | leaf (value : α)
  | node (operator : Operator) (left right : Tree α)
  deriving DecidableEq, Repr

namespace Tree

variable {α : Type}

/-- The value of a tree, every operator applied to the values of its two
subtrees. -/
def value [Arithmetic α] : Tree α → α
  | leaf x => x
  | node o left right => o.apply left.value right.value

def leaves : Tree α → List α
  | leaf x => [x]
  | node _ left right => left.leaves ++ right.leaves

/-- The operators inside, from left to right. -/
def operators : Tree α → List Operator
  | leaf _ => []
  | node o left right => left.operators ++ o :: right.operators

/-- The same tree over other values. -/
def map {β : Type} (f : α → β) : Tree α → Tree β
  | leaf x => leaf (f x)
  | node o left right => node o (left.map f) (right.map f)

/-- Operators join trees. -/
instance : Arithmetic (Tree α) where
  add := node .add
  sub := node .sub
  mul := node .mul
  div := node .div

/-- Over trees every operator does nothing but put a node on top. -/
theorem apply_eq_node (o : Operator) (left right : Tree α) :
    o.apply left right = node o left right := by
  cases o <;> rfl

end Tree

end Calculator
