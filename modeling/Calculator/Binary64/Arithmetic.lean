/-
The four operations on binary64 numbers: the exact result, rounded once.

Two finite operands are whole multiples of one unit, so their sum is one too,
and their product and their quotient are quotients of natural numbers. No
intermediate value is ever rounded, and there is nothing to say about guard
digits.

What is left are the rules for the operands that are not finite and for the
sign of zero. A division by zero is an infinity and never an error.
-/
import Calculator.Operator
import Calculator.Binary64.Rounding

namespace Calculator.Binary64

attribute [local instance] natPow

/-- The value at a rank under a sign, counted in units. -/
def signedUnits (negative : Bool) (rank : Nat) : Int :=
  if negative then -(units rank : Int) else units rank

/-- The sum. Two finite operands that cancel give the zero without a sign,
unless both of them are negative. -/
protected def add : Binary64 → Binary64 → Binary64
  | nan, _ => nan
  | _, nan => nan
  | infinity s, infinity t => if s = t then infinity s else nan
  | infinity s, finite _ _ => infinity s
  | finite _ _, infinity t => infinity t
  | finite s x, finite t y =>
    let sum := signedUnits s x + signedUnits t y
    if sum = 0 then zero (s && t) else round (decide (sum < 0)) sum.natAbs 1

/-- The difference is the sum with the opposite number. -/
protected def sub (x y : Binary64) : Binary64 := x.add (-y)

/-- The product. A unit is `2 ^ -1074`, so a product of two counts of units
is divided by `2 ^ 1074` to be a count of units again. -/
protected def mul : Binary64 → Binary64 → Binary64
  | nan, _ => nan
  | _, nan => nan
  | infinity s, infinity t => infinity (s ^^ t)
  | infinity s, finite t y => if y.val = 0 then nan else infinity (s ^^ t)
  | finite s x, infinity t => if x.val = 0 then nan else infinity (s ^^ t)
  | finite s x, finite t y => round (s ^^ t) (units x * units y) (2 ^ (1074 : Nat))

protected def div : Binary64 → Binary64 → Binary64
  | nan, _ => nan
  | _, nan => nan
  | infinity _, infinity _ => nan
  | infinity s, finite t _ => infinity (s ^^ t)
  | finite s _, infinity t => zero (s ^^ t)
  | finite s x, finite t y =>
    if y.val = 0 then if x.val = 0 then nan else infinity (s ^^ t)
    else round (s ^^ t) (units x * 2 ^ (1074 : Nat)) (units y)

instance : Arithmetic Binary64 where
  add := Binary64.add
  sub := Binary64.sub
  mul := Binary64.mul
  div := Binary64.div

end Calculator.Binary64
