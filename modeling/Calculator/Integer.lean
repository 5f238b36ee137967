/-
Expressions of whole numbers.

# In the integers

An integer literal is a sign, perhaps, and decimal digits. Integers are
values, so a tree over literals has an exact value. It is *exact* if nothing
on the way leaves the integers or the range of those that binary64 has all of:
every division goes out even, by a divisor that is not zero, and no literal
and no result is larger than `2 ^ 53` in magnitude.

# In binary64

A number is an integer if it is finite and counts that integer times the
units of one. Zero has two such numbers, every other integer in the range
one.
-/
import Calculator.Binary64.Arithmetic
import Calculator.Token
import Calculator.Tree

namespace Calculator

attribute [local instance] natPow

-- ================================================================== literals

structure Literal where
  sign : Option Sign
  digits : List Char
  digits_ne_nil : digits ≠ []
  isDigit : ∀ c ∈ digits, c.isDigit = true

namespace Literal

def spell (l : Literal) : String := String.ofList (Sign.spell l.sign ++ l.digits)

def magnitude (l : Literal) : Nat := Nat.ofDigitChars 10 l.digits 0

def value (l : Literal) : Int :=
  if Sign.isMinus l.sign then -(l.magnitude : Int) else l.magnitude

/-- The sign of a literal changes nothing about its size. -/
theorem natAbs_value (l : Literal) : l.value.natAbs = l.magnitude := by
  unfold value
  split
  · exact Int.natAbs_neg _
  · rfl

end Literal

/-- The word of a token. -/
def Token.spell : Token Literal → String
  | number l => l.spell
  | operator o => String.singleton o.symbol
  | opening => "("
  | closing => ")"

-- ================================================================= exactness

instance : Arithmetic Int := {}

/-- At integers the operators are addition, subtraction, multiplication and
division of integers. -/
theorem Operator.apply_int (o : Operator) (p q : Int) :
    o.apply p q = match o with
      | .add => p + q
      | .sub => p - q
      | .mul => p * q
      | .div => p / q := by
  cases o <;> rfl

/-- Every division in the tree goes out even, and all its numbers and results
are in the range from `-2 ^ 53` to `2 ^ 53`. -/
def Tree.Exact : Tree Int → Prop
  | leaf z => z.natAbs ≤ 2 ^ (53 : Nat)
  | node o left right =>
    left.Exact ∧ right.Exact
      ∧ (o = .div → right.value ≠ 0 ∧ right.value ∣ left.value)
      ∧ (o.apply left.value right.value).natAbs ≤ 2 ^ (53 : Nat)

instance Tree.decidableExact : (t : Tree Int) → Decidable t.Exact
  | leaf z => inferInstanceAs (Decidable (z.natAbs ≤ 2 ^ (53 : Nat)))
  | node _ left right =>
    have := decidableExact left
    have := decidableExact right
    inferInstanceAs (Decidable (_ ∧ _ ∧ (_ → _ ∧ _) ∧ _))

/-- The value of an exact tree is in the range. -/
theorem Tree.Exact.natAbs_value_le {t : Tree Int} (h : t.Exact) :
    t.value.natAbs ≤ 2 ^ (53 : Nat) := by
  cases t with
  | leaf z => exact h
  | node o left right => exact h.2.2.2

-- =================================================================== numbers

namespace Binary64

/-- How many units are one. -/
def unitsOfOne : Nat := 2 ^ (1074 : Nat)

theorem unitsOfOne_pos : 0 < unitsOfOne := by
  rw [unitsOfOne]
  apply Nat.two_pow_pos

/-- The number is this integer. -/
def IsInteger (x : Binary64) (z : Int) : Prop :=
  ∃ (negative : Bool) (rank : Fin rankCount), x = finite negative rank
    ∧ signedUnits negative rank = z * unitsOfOne

end Binary64

end Calculator
