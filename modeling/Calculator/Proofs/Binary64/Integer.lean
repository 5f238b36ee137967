/-
Arithmetic on integers is exact.

An integer of at most 53 binary digits is a whole number of units that rounds
to itself, and so is `2 ^ 53` (`units_nearestRank_of_le`). Every operation
rounds one exact quotient under a sign. If that quotient is an integer in the
range and the sign is its sign, the result is the integer
(`isInteger_round`). So for each operation there are two things to see: that
its quotient is the integer result in units, and that its sign is right. Where
the result is zero the sign is of no account.
-/
import Calculator.Integer
import Calculator.Proofs.Binary64.Order

namespace Calculator

namespace Binary64

-- ================================================================== integers

/-- A multiple of a power of two with at most 53 digits above it is
representable. -/
theorem units_nearestRank_integer {n e : Nat} (hlt : n < 2 ^ (53 + e)) (hdvd : 2 ^ e ∣ n) :
    units (nearestRank (n * unitsOfOne) 1) = n * unitsOfOne := by
  apply units_nearestRank
  have hpow (a k : Nat) : 2 ^ (a + k) = 2 ^ a * 2 ^ k := Nat.pow_add 2 a k
  have hspacing : spacing (n * unitsOfOne) 1 ≤ e + 1074 := by
    by_cases hzero : n * unitsOfOne = 0
    · rw [hzero]
      exact Nat.zero_le _
    · have hlog : (n * unitsOfOne).log2 < 53 + e + 1074 := by
        have hmul := Nat.mul_lt_mul_of_pos_right hlt unitsOfOne_pos
        rw [Nat.log2_lt hzero, hpow, ← unitsOfOne]
        exact hmul
      unfold spacing
      rw [Nat.div_one]
      omega
  refine Nat.dvd_trans (Nat.pow_dvd_pow 2 hspacing) ?_
  rw [hpow, ← unitsOfOne]
  exact Nat.mul_dvd_mul_right hdvd _

/-- Every whole number in the range is rounded to itself. -/
theorem units_nearestRank_of_le {n : Nat} (h : n ≤ 2 ^ 53) :
    units (nearestRank (n * unitsOfOne) 1) = n * unitsOfOne := by
  rcases Nat.eq_or_lt_of_le h with rfl | hlt
  · exact units_nearestRank_integer (e := 1) (by decide) (by decide)
  · exact units_nearestRank_integer (e := 0) hlt (Nat.one_dvd n)

/-- None of them rounds to infinity. -/
theorem nearestRank_lt_rankCount {n : Nat} (h : n ≤ 2 ^ 53) :
    nearestRank (n * unitsOfOne) 1 < rankCount := by
  have hmono := nearestRank_mono Nat.one_pos (Nat.mul_le_mul_right unitsOfOne h)
  exact Nat.lt_of_le_of_lt hmono (by decide +kernel)

-- =============================================================== their signs

theorem signedUnits_false (rank : Nat) : signedUnits false rank = units rank :=
  if_neg Bool.false_ne_true

theorem signedUnits_true (rank : Nat) : signedUnits true rank = -(units rank : Int) := if_pos rfl

theorem natAbs_signedUnits (negative : Bool) (rank : Nat) :
    (signedUnits negative rank).natAbs = units rank := by
  unfold signedUnits
  split
  · exact Int.natAbs_neg _
  · rfl

/-- A magnitude under the sign of an integer is the integer. -/
theorem signedUnits_eq {negative : Bool} {rank : Nat} {z : Int}
    (hunits : units rank = z.natAbs * unitsOfOne) (hsign : z ≠ 0 → negative = decide (z < 0)) :
    signedUnits negative rank = z * unitsOfOne := by
  unfold signedUnits
  rw [hunits, Int.natCast_mul]
  rcases Int.lt_trichotomy z 0 with hneg | rfl | hpos
  · rw [hsign (by omega), if_pos (decide_eq_true hneg), Int.ofNat_natAbs_of_nonpos (by omega),
      Int.neg_mul, Int.neg_neg]
  · rw [Int.natAbs_zero, Int.natCast_zero, Int.zero_mul, Int.neg_zero, ite_self]
  · rw [hsign (by omega), if_neg (by simp; omega), Int.natAbs_of_nonneg (by omega)]

/-- The units of an integer are its size times the units of one. -/
theorem units_of_signedUnits {negative : Bool} {rank : Nat} {z : Int}
    (h : signedUnits negative rank = z * unitsOfOne) : units rank = z.natAbs * unitsOfOne := by
  have hnat := natAbs_signedUnits negative rank
  rw [h, Int.natAbs_mul, Int.natAbs_natCast] at hnat
  exact hnat.symm

theorem unitsOfOne_cast_pos : (0 : Int) < unitsOfOne := Int.natCast_pos.2 unitsOfOne_pos

/-- Counting in units keeps the sign. -/
theorem mul_unitsOfOne_neg_iff {z : Int} : z * unitsOfOne < 0 ↔ z < 0 := by
  refine ⟨fun h => ?_, fun h => Int.mul_neg_of_neg_of_pos h unitsOfOne_cast_pos⟩
  exact Int.not_le.1 fun hle =>
    absurd h (Int.not_lt.2 (Int.mul_nonneg hle (Int.le_of_lt unitsOfOne_cast_pos)))

/-- An integer other than zero has its sign. -/
theorem negative_of_signedUnits {negative : Bool} {rank : Nat} {z : Int}
    (h : signedUnits negative rank = z * unitsOfOne) (hz : z ≠ 0) :
    negative = decide (z < 0) := by
  have hunits : (0 : Int) ≤ units rank := Int.natCast_nonneg _
  have hne : signedUnits negative rank ≠ 0 := by
    rw [h]
    exact Int.mul_ne_zero hz (Int.ne_of_gt unitsOfOne_cast_pos)
  have hsign : signedUnits negative rank < 0 ↔ z < 0 := by
    rw [h]
    exact mul_unitsOfOne_neg_iff
  cases negative with
  | false =>
      rw [signedUnits_false] at hsign
      exact (decide_eq_false fun hz => Int.not_lt.2 hunits (hsign.2 hz)).symm
  | true =>
      rw [signedUnits_true] at hne hsign
      exact (decide_eq_true (hsign.1 (by omega))).symm

/-- The signs of two factors make the sign of their product. -/
theorem decide_mul_neg {p q : Int} (hp : p ≠ 0) (hq : q ≠ 0) :
    (decide (p < 0) ^^ decide (q < 0)) = decide (p * q < 0) := by
  rcases Int.lt_or_gt_of_ne hp with hp | hp
  · rcases Int.lt_or_gt_of_ne hq with hq | hq
    · have := Int.mul_pos_of_neg_of_neg hp hq
      rw [decide_eq_true hp, decide_eq_true hq, decide_eq_false (by omega)]
      rfl
    · have := Int.mul_neg_of_neg_of_pos hp hq
      rw [decide_eq_true hp, decide_eq_false (by omega), decide_eq_true this]
      rfl
  · rcases Int.lt_or_gt_of_ne hq with hq | hq
    · have := Int.mul_neg_of_pos_of_neg hp hq
      rw [decide_eq_false (by omega), decide_eq_true hq, decide_eq_true this]
      rfl
    · have := Int.mul_pos hp hq
      rw [decide_eq_false (by omega), decide_eq_false (by omega), decide_eq_false (by omega)]
      rfl

-- ============================================================== one rounding

/-- What rounds to an integer in the range is the integer, if its sign is. -/
theorem isInteger_round {negative : Bool} {n d : Nat} {z : Int} (hd : 0 < d)
    (hquotient : n = z.natAbs * unitsOfOne * d) (hsign : z ≠ 0 → negative = decide (z < 0))
    (hrange : z.natAbs ≤ 2 ^ 53) : (round negative n d).IsInteger z := by
  have hrank : nearestRank n d = nearestRank (z.natAbs * unitsOfOne) 1 := by
    apply nearestRank_congr hd Nat.one_pos
    rw [hquotient, Nat.mul_one]
  have hlt := nearestRank_lt_rankCount hrange
  refine ⟨negative, ⟨nearestRank (z.natAbs * unitsOfOne) 1, hlt⟩, ?_, ?_⟩
  · rw [round, hrank, ofRank_of_lt hlt]
  · exact signedUnits_eq (units_nearestRank_of_le hrange) hsign

theorem isInteger_zero (negative : Bool) : (zero negative).IsInteger 0 := by
  refine ⟨negative, ⟨0, by decide⟩, rfl, ?_⟩
  rw [Int.zero_mul]
  cases negative with
  | false => rfl
  | true => rfl

-- =========================================================== finite operands

/-- The sum of finite numbers rounds the exact sum, with a zero of its own
where that is zero. -/
theorem add_finite (s t : Bool) (a b : Fin rankCount) :
    finite s a + finite t b
      = if signedUnits s a + signedUnits t b = 0 then zero (s && t)
        else round (decide (signedUnits s a + signedUnits t b < 0))
          (signedUnits s a + signedUnits t b).natAbs 1 := by
  show Binary64.add _ _ = _
  rw [Binary64.add]

/-- The product of finite numbers rounds the exact product. -/
theorem mul_finite (s t : Bool) (a b : Fin rankCount) :
    finite s a * finite t b = round (s ^^ t) (units a * units b) unitsOfOne := by
  show Binary64.mul _ _ = _
  rw [Binary64.mul, unitsOfOne]

/-- The quotient by a finite number other than zero rounds the exact quotient.
-/
theorem div_finite (s t : Bool) (a : Fin rankCount) {b : Fin rankCount} (hb : b.val ≠ 0) :
    finite s a / finite t b = round (s ^^ t) (units a * unitsOfOne) (units b) := by
  show Binary64.div _ _ = _
  rw [Binary64.div, if_neg hb, unitsOfOne]

-- ============================================================ the operations

variable {x y : Binary64} {p q : Int}

theorem IsInteger.neg (hx : x.IsInteger p) : (-x).IsInteger (-p) := by
  obtain ⟨s, a, rfl, ha⟩ := hx
  refine ⟨!s, a, rfl, ?_⟩
  rw [Int.neg_mul, ← ha]
  cases s with
  | false => rw [Bool.not_false, signedUnits_true, signedUnits_false]
  | true => rw [Bool.not_true, signedUnits_false, signedUnits_true, Int.neg_neg]

/-- Addition is exact where the sum is in the range. -/
theorem IsInteger.add (hx : x.IsInteger p) (hy : y.IsInteger q)
    (hrange : (p + q).natAbs ≤ 2 ^ 53) : (x + y).IsInteger (p + q) := by
  obtain ⟨s, a, rfl, ha⟩ := hx
  obtain ⟨t, b, rfl, hb⟩ := hy
  have hsum : signedUnits s a + signedUnits t b = (p + q) * unitsOfOne := by
    rw [ha, hb, Int.add_mul]
  rw [add_finite]
  by_cases hzero : signedUnits s a + signedUnits t b = 0
  · have hpq : p + q = 0 := by
      rw [hsum] at hzero
      exact (Int.mul_eq_zero.1 hzero).resolve_right (Int.ne_of_gt unitsOfOne_cast_pos)
    rw [if_pos hzero, hpq]
    exact isInteger_zero _
  · rw [if_neg hzero]
    refine isInteger_round Nat.one_pos ?_ (fun _ => ?_) hrange
    · rw [hsum, Int.natAbs_mul, Int.natAbs_natCast, Nat.mul_one]
    · rw [decide_eq_decide, hsum]
      exact mul_unitsOfOne_neg_iff

theorem IsInteger.sub (hx : x.IsInteger p) (hy : y.IsInteger q)
    (hrange : (p - q).natAbs ≤ 2 ^ 53) : (x - y).IsInteger (p - q) := by
  rw [Int.sub_eq_add_neg] at hrange ⊢
  exact hx.add hy.neg hrange

/-- Multiplication is exact where the product is in the range. -/
theorem IsInteger.mul (hx : x.IsInteger p) (hy : y.IsInteger q)
    (hrange : (p * q).natAbs ≤ 2 ^ 53) : (x * y).IsInteger (p * q) := by
  obtain ⟨s, a, rfl, ha⟩ := hx
  obtain ⟨t, b, rfl, hb⟩ := hy
  rw [mul_finite]
  refine isInteger_round unitsOfOne_pos ?_ (fun hne => ?_) hrange
  · rw [units_of_signedUnits ha, units_of_signedUnits hb, Int.natAbs_mul,
      Nat.mul_mul_mul_comm, Nat.mul_assoc (p.natAbs * q.natAbs)]
  · obtain ⟨hp, hq⟩ := Int.mul_ne_zero_iff.1 hne
    rw [negative_of_signedUnits ha hp, negative_of_signedUnits hb hq, decide_mul_neg hp hq]

/-- Division is exact where it goes out even, and the quotient is in the range.
-/
theorem IsInteger.div (hx : x.IsInteger p) (hy : y.IsInteger q) (hq : q ≠ 0) (hdvd : q ∣ p)
    (hrange : (p / q).natAbs ≤ 2 ^ 53) : (x / y).IsInteger (p / q) := by
  obtain ⟨s, a, rfl, ha⟩ := hx
  obtain ⟨t, b, rfl, hb⟩ := hy
  obtain ⟨k, rfl⟩ := hdvd
  rw [Int.mul_ediv_cancel_left k hq] at hrange ⊢
  have hpos : 0 < units b := by
    rw [units_of_signedUnits hb]
    exact Nat.mul_pos (Int.natAbs_pos.2 hq) unitsOfOne_pos
  have hb0 : b.val ≠ 0 := by
    intro hzero
    rw [hzero] at hpos
    exact absurd hpos (by decide)
  rw [div_finite s t a hb0]
  refine isInteger_round hpos ?_ (fun hk => ?_) hrange
  · rw [units_of_signedUnits ha, units_of_signedUnits hb, Int.natAbs_mul, Nat.mul_comm q.natAbs,
      Nat.mul_mul_mul_comm, Nat.mul_assoc (k.natAbs * q.natAbs)]
  · rw [negative_of_signedUnits ha (Int.mul_ne_zero hq hk), negative_of_signedUnits hb hq,
      ← decide_mul_neg hq hk, Bool.xor_right_comm, Bool.xor_self, Bool.false_xor]

/-- An operator whose exact result is an integer in the range has it as its
result. -/
theorem IsInteger.apply (hx : x.IsInteger p) (hy : y.IsInteger q) {o : Operator}
    (hdiv : o = .div → q ≠ 0 ∧ q ∣ p) (hrange : (o.apply p q).natAbs ≤ 2 ^ 53) :
    (o.apply x y).IsInteger (o.apply p q) := by
  rw [Operator.apply_int] at hrange ⊢
  cases o with
  | add => exact hx.add hy hrange
  | sub => exact hx.sub hy hrange
  | mul => exact hx.mul hy hrange
  | div =>
      obtain ⟨hq, hdvd⟩ := hdiv rfl
      exact hx.div hy hq hdvd hrange

end Binary64

end Calculator
