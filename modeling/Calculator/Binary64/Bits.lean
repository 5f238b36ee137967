/-
The interchange format: a binary64 number as a word of 64 bits.

The top bit is the sign, and the other 63 hold the rank, counting on past the
finite values: the place right after them is infinity, and every place beyond
is not a number. Reading and writing are inverse to each other but for that
last class, of which `toBits` writes one member.
-/
import Calculator.Binary64

namespace Calculator.Binary64

attribute [local instance] natPow

/-- The number that a word of 64 bits stands for. -/
def ofBits (bits : BitVec 64) : Binary64 :=
  let rank := bits.toNat % 2 ^ (63 : Nat)
  if rank ≤ rankCount then ofRank (decide (2 ^ (63 : Nat) ≤ bits.toNat)) rank else nan

/-- The word of 64 bits that stands for a number. -/
def toBits : Binary64 → BitVec 64
  | nan => 0x7ff8000000000000#64
  | infinity negative => BitVec.ofNat 64 (negative.toNat * 2 ^ (63 : Nat) + rankCount)
  | finite negative rank => BitVec.ofNat 64 (negative.toNat * 2 ^ (63 : Nat) + rank)

/-- A number is found again behind its bits. -/
theorem ofBits_toBits (x : Binary64) : ofBits x.toBits = x := by
  cases x with
  | nan => decide +kernel
  | infinity negative => cases negative <;> decide +kernel
  | finite negative rank =>
    have h := rank.isLt
    have hlt : negative.toNat * 2 ^ 63 + rank.val < 2 ^ 64 := by
      have := negative.toNat_le
      unfold rankCount at h
      omega
    have hmod : (negative.toNat * 2 ^ 63 + rank.val) % 2 ^ 63 = rank.val := by
      unfold rankCount at h
      omega
    have hsign : decide (2 ^ 63 ≤ negative.toNat * 2 ^ 63 + rank.val) = negative := by
      unfold rankCount at h
      cases negative
      · exact decide_eq_false (by simp; omega)
      · exact decide_eq_true (by simp)
    rw [toBits, ofBits, BitVec.toNat_ofNat, Nat.mod_eq_of_lt hlt, hmod, hsign]
    simp only [Nat.le_of_lt h, if_true]
    exact ofRank_of_lt h

end Calculator.Binary64
