/-
Binary64 numbers, written as what they are rather than as bits.

# Ranks

The finite values that are not negative form one ascending list: zero, the
subnormals, then one block of `2 ^ 52` values after another, each block twice
as widely spaced as the one before it. A finite value is its sign and its
place in that list, its `rank`. Two things come for free: the order of ranks
is the order of values, and moving to a neighbour is adding one, also where a
block ends. The interchange format stores exactly this number in its low 63
bits.

# Units

Every finite value is a whole multiple of the least one, `2 ^ -1074`. The
multiple is `units`, a natural number, so all arithmetic on finite values can
be carried out exactly before it is rounded.

One `nan` stands for every not-a-number: nothing that the calculator prints
or decides tells two of them apart.
-/

namespace Calculator

/-- Powers as the core library has them. Where definitions are to be the same
terms with and without an algebra library at hand, this is the instance for
them, and a literal exponent says that it is a number. -/
@[reducible] def natPow : Pow Nat Nat := instPowNat

attribute [local instance] natPow

/-- How many finite values there are that are not negative: the subnormal
block, zero at its head, and the 2046 blocks above it. -/
def rankCount : Nat := 2047 * 2 ^ (52 : Nat)

inductive Binary64 where
  | nan
  | infinity (negative : Bool)
  | finite (negative : Bool) (rank : Fin rankCount)
  deriving DecidableEq

namespace Binary64

-- ================================================== from a rank to its value

/-- The spacing of the values around a rank, as a power of two of units. The
subnormal block and the first normal block share the spacing of one unit. -/
def scale (rank : Nat) : Nat := rank / 2 ^ (52 : Nat) - 1

/-- What is multiplied by the spacing: below `2 ^ 52` for a subnormal value,
from `2 ^ 52` up to `2 ^ 53` for a normal one. -/
def significand (rank : Nat) : Nat := rank - scale rank * 2 ^ (52 : Nat)

/-- The value at a rank, counted in units of `2 ^ -1074`. -/
def units (rank : Nat) : Nat := significand rank * 2 ^ scale rank

/-- A rank is taken apart without loss. -/
theorem scale_mul_add_significand (rank : Nat) :
    scale rank * 2 ^ (52 : Nat) + significand rank = rank := by
  unfold significand scale
  omega

/-- A significand has at most 53 binary digits. -/
theorem significand_lt (rank : Nat) : significand rank < 2 ^ (53 : Nat) := by
  unfold significand scale
  omega

/-- Only the block with the finest spacing has significands of fewer than 53
binary digits. -/
theorem le_significand {rank : Nat} (h : scale rank ≠ 0) :
    2 ^ (52 : Nat) ≤ significand rank := by
  unfold significand scale at *
  omega

-- ============================================================== common values

def zero (negative : Bool) : Binary64 := finite negative ⟨0, by decide⟩

/-- The value of a sign at a place in the ascending list; past the end of the
list stands infinity. -/
def ofRank (negative : Bool) (rank : Nat) : Binary64 :=
  if h : rank < rankCount then finite negative ⟨rank, h⟩ else infinity negative

theorem ofRank_of_lt {negative : Bool} {rank : Nat} (h : rank < rankCount) :
    ofRank negative rank = finite negative ⟨rank, h⟩ := by
  simp [ofRank, h]

theorem ofRank_of_le {negative : Bool} {rank : Nat} (h : rankCount ≤ rank) :
    ofRank negative rank = infinity negative := by
  simp [ofRank, Nat.not_lt.2 h]

protected def neg : Binary64 → Binary64
  | nan => nan
  | infinity negative => infinity (!negative)
  | finite negative rank => finite (!negative) rank

instance : Neg Binary64 := ⟨Binary64.neg⟩

end Binary64

end Calculator
