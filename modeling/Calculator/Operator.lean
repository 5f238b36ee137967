/-
The four binary operators: how each is written, how tightly it binds, and
what it does to two values.

# Values are a parameter

The calculator works on binary64 numbers, but nothing in the way it reads an
expression looks at a number. `Arithmetic` asks of a type of values no more
than the four operations, so the same machine runs over floating-point
numbers, over integers, or over the trees that record how a result was put
together.
-/

namespace Calculator

-- ==================================================== what values must offer

/-- The operations that an operator can ask of two values. No law is assumed:
floating-point numbers keep hardly any. -/
class Arithmetic (α : Type) extends Add α, Sub α, Mul α, Div α

-- ============================================================= the operators

inductive Operator where
  | add
  | sub
  | mul
  | div
  deriving DecidableEq, Repr

namespace Operator

/-- The one character that writes the operator. -/
def symbol : Operator → Char
  | add => '+'
  | sub => '-'
  | mul => '*'
  | div => '/'

/-- The operator that a text spells. Only the bare symbol counts: a text with
anything beside it spells none. -/
def ofSymbol? (text : String) : Option Operator :=
  match text.toList with
  | ['+'] => some add
  | ['-'] => some sub
  | ['*'] => some mul
  | ['/'] => some div
  | _ => none

/-- How tightly the operator binds; the larger number binds first. -/
def precedence : Operator → Nat
  | add => 1
  | sub => 1
  | mul => 2
  | div => 2

/-- The operator at work, its left operand first. -/
def apply {α : Type} [Arithmetic α] : Operator → α → α → α
  | add, left, right => left + right
  | sub, left, right => left - right
  | mul, left, right => left * right
  | div, left, right => left / right

/-- Reading an operator's symbol gives the operator back, and no other text
reads as it. -/
theorem ofSymbol?_eq_some_iff {text : String} {o : Operator} :
    ofSymbol? text = some o ↔ text.toList = [o.symbol] := by
  unfold ofSymbol?
  split <;> rename_i h <;> cases o <;> simp_all [symbol]

end Operator

end Calculator
