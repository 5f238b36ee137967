/-
The shortest decimal that reads back as a given number.

The multiples of `10 ^ e` form a grid, and each grid contains the next
coarser one. A decimal needs the fewer digits the coarser the grid it lies
on, so the search goes from coarse to fine and stops at the first grid that
holds a decimal reading back as the number.

On each grid the two neighbours of the exact value are tried. What reads back
as one number is an interval around it, and if any decimal of the grid lies in
it, so does a neighbour on the same side. When both read back, the nearer one
is taken, and the larger one when they are equally near.

A unit of `2 ^ -1074` is `5 ^ 1074` times `10 ^ -1074`. In these smaller
units every finite value is a natural number and grid `j` is the multiples of
`10 ^ j`, so the search is a countdown of `j`.
-/
import Calculator.Decimal

namespace Calculator.Decimal

attribute [local instance] natPow

open Binary64

variable (rank : Nat)

/-- The value at a rank, counted in units of `10 ^ -1074`. -/
def tinyUnits : Nat := units rank * 5 ^ (1074 : Nat)

/-- The decimal of `count` steps on grid `j`. -/
def onGrid (j count : Nat) : Decimal := ⟨count, (j : Int) - 1074⟩

/-- Whether a decimal reads back as the number at a rank. -/
def readsAs (d : Decimal) : Bool := d.toBinary64 false = ofRank false rank

/-- The decimal on grid `j` that reads back as the number at a rank, the
nearest if there are more, the larger if they are equally near. -/
def nearestOnGrid? (j : Nat) : Option Decimal :=
  let below := onGrid j (tinyUnits rank / 10 ^ j)
  let above := onGrid j (tinyUnits rank / 10 ^ j + 1)
  if readsAs rank below ∧ (readsAs rank above → 2 * (tinyUnits rank % 10 ^ j) < 10 ^ j) then
    some below
  else if readsAs rank above then some above
  else none

/-- The decimal found on the coarsest grid from `j` downwards that has one. -/
def shortestFrom : Nat → Decimal
  | 0 => onGrid 0 (tinyUnits rank)
  | j + 1 => (nearestOnGrid? rank (j + 1)).getD (shortestFrom j)

/-- A decimal with as few digits as any that reads back as the number at a
rank, and of those the nearest to it. The search starts at a power of ten
above the value, since `10 ^ j` exceeds `2 ^ (3 * j)`. -/
def shortest : Decimal :=
  shortestFrom rank ((tinyUnits rank).log2 / 3 + 1)

end Calculator.Decimal
