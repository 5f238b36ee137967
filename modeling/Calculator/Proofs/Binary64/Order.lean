/-
Rounding keeps the order, and what fits it keeps exactly.

Inside one block the nearest rank grows with the quotient because rounding to
a whole number does. Between blocks it grows because the ranks of a block lie
between the first rank of the block and the first one of the next, also after
rounding (`first_le_nearestRank`, `nearestRank_le`).

A whole number of units that is a multiple of its own spacing is not rounded:
it is the value at its nearest rank (`units_nearestRank`).
-/
import Calculator.Proofs.Binary64.Quotient

namespace Calculator

-- ================================================= rounding to a whole number

/-- Rounding does not go below a whole number that the quotient reaches. -/
theorem le_roundHalfEven {m n d : Nat} (hd : 0 < d) (h : m * d ≤ n) : m ≤ roundHalfEven n d := by
  have hdiv : m ≤ n / d := (Nat.le_div_iff_mul_le hd).2 h
  unfold roundHalfEven
  split
  · exact hdiv
  · split
    · omega
    · omega

/-- Rounding goes up by less than one. -/
theorem roundHalfEven_le_succ (n d : Nat) : roundHalfEven n d ≤ n / d + 1 := by
  unfold roundHalfEven
  split
  · omega
  · split
    · omega
    · omega

/-- Rounding does not go above a whole number that the quotient does not
exceed. -/
theorem roundHalfEven_le {m n d : Nat} (hd : 0 < d) (h : n ≤ m * d) : roundHalfEven n d ≤ m := by
  rcases Nat.eq_or_lt_of_le h with rfl | hlt
  · exact Nat.le_of_eq (roundHalfEven_mul_self m hd)
  · have hdiv : n / d < m := (Nat.div_lt_iff_lt_mul hd).2 hlt
    exact Nat.le_trans (roundHalfEven_le_succ n d) hdiv

/-- Less than half a step is dropped. -/
theorem roundHalfEven_of_lt {n d : Nat} (h : 2 * (n % d) < d) : roundHalfEven n d = n / d :=
  if_pos h

theorem roundHalfEven_of_gt {n d : Nat} (h : d < 2 * (n % d)) : roundHalfEven n d = n / d + 1 := by
  rw [roundHalfEven, if_neg (Nat.not_lt.2 (Nat.le_of_lt h)), if_pos h]

/-- Rounding keeps the order of quotients over one divisor. -/
theorem roundHalfEven_mono {n n' d : Nat} (hd : 0 < d) (h : n ≤ n') :
    roundHalfEven n d ≤ roundHalfEven n' d := by
  have hdiv : n / d ≤ n' / d := Nat.div_le_div_right h
  have hwhole : n' / d ≤ roundHalfEven n' d := le_roundHalfEven hd (Nat.div_mul_le_self n' d)
  rcases Nat.eq_or_lt_of_le hdiv with heq | hlt
  · -- one whole part: what is left over decides
    have hmod : n % d ≤ n' % d := by
      have hn := Nat.div_add_mod n d
      have hn' := Nat.div_add_mod n' d
      rw [heq] at hn
      omega
    rcases Nat.lt_trichotomy (2 * (n % d)) d with hbelow | htie | habove
    · rw [roundHalfEven_of_lt hbelow, heq]
      exact hwhole
    · rcases Nat.eq_or_lt_of_le hmod with hsame | hmore
      · apply Nat.le_of_eq
        unfold roundHalfEven
        rw [heq, hsame]
      · rw [roundHalfEven_of_gt (n := n') (by omega), ← heq]
        exact roundHalfEven_le_succ n d
    · rw [roundHalfEven_of_gt (n := n') (by omega), ← heq]
      exact roundHalfEven_le_succ n d
  · exact Nat.le_trans (roundHalfEven_le_succ n d) (Nat.le_trans hlt hwhole)

namespace Binary64

-- =============================================================== in one block

/-- The spacing is coarse enough for 53 digits of the quotient. -/
theorem lt_of_spacing (n : Nat) {d : Nat} (hd : 0 < d) :
    n < 2 ^ 53 * (d * 2 ^ spacing n d) := by
  have hlog : n / d < 2 ^ ((n / d).log2 + 1) := Nat.lt_log2_self
  have hpow : 2 ^ ((n / d).log2 + 1) ≤ 2 ^ (53 + spacing n d) := by
    apply Nat.pow_le_pow_right (by decide)
    unfold spacing
    omega
  have hlt : n < 2 ^ (53 + spacing n d) * d :=
    (Nat.div_lt_iff_lt_mul hd).1 (Nat.lt_of_lt_of_le hlog hpow)
  rwa [Nat.pow_add, Nat.mul_assoc, Nat.mul_comm (2 ^ spacing n d)] at hlt

/-- A spacing other than the finest is no coarser than these need. -/
theorem le_of_spacing {n d : Nat} (hd : 0 < d) (h : spacing n d ≠ 0) :
    2 ^ 52 * (d * 2 ^ spacing n d) ≤ n := by
  have hlog : (n / d).log2 = 52 + spacing n d := by
    unfold spacing at *
    omega
  have hne : n / d ≠ 0 := by
    intro hzero
    rw [hzero, Nat.log2_zero] at hlog
    omega
  have hle : 2 ^ (52 + spacing n d) * d ≤ n := by
    rw [← Nat.le_div_iff_mul_le hd, ← hlog]
    exact Nat.log2_self_le hne
  rwa [Nat.pow_add, Nat.mul_assoc, Nat.mul_comm (2 ^ spacing n d)] at hle

/-- Larger quotients have no finer spacing. -/
theorem spacing_mono {n n' : Nat} (h : n ≤ n') (d : Nat) : spacing n d ≤ spacing n' d := by
  apply Nat.sub_le_sub_right
  have hdiv : n / d ≤ n' / d := Nat.div_le_div_right h
  by_cases hzero : n / d = 0
  · rw [hzero]
    exact Nat.zero_le _
  · have hzero' : n' / d ≠ 0 := fun h' => hzero (Nat.le_zero.1 (h' ▸ hdiv))
    exact (Nat.le_log2 hzero').2 (Nat.le_trans (Nat.log2_self_le hzero) hdiv)

theorem step_pos {d : Nat} (hd : 0 < d) (k : Nat) : 0 < d * 2 ^ k :=
  Nat.mul_pos hd (Nat.two_pow_pos k)

/-- No nearest rank lies past the first rank of the next block. -/
theorem nearestRank_le (n : Nat) {d : Nat} (hd : 0 < d) :
    nearestRank n d ≤ (spacing n d + 2) * 2 ^ 52 := by
  have h := roundHalfEven_le (step_pos hd (spacing n d)) (Nat.le_of_lt (lt_of_spacing n hd))
  unfold nearestRank
  omega

/-- Above the finest spacing no nearest rank lies before its block. -/
theorem first_le_nearestRank {n d : Nat} (hd : 0 < d) (hspacing : spacing n d ≠ 0) :
    (spacing n d + 1) * 2 ^ 52 ≤ nearestRank n d := by
  have h := le_roundHalfEven (step_pos hd (spacing n d)) (le_of_spacing hd hspacing)
  unfold nearestRank
  omega

-- ================================================================== the order

/-- A larger quotient has no smaller nearest rank, also where the spacing changes
in between. -/
theorem nearestRank_mono {n n' d : Nat} (hd : 0 < d) (h : n ≤ n') :
    nearestRank n d ≤ nearestRank n' d := by
  rcases Nat.eq_or_lt_of_le (spacing_mono h d) with heq | hlt
  · unfold nearestRank
    rw [← heq]
    exact Nat.add_le_add_left (roundHalfEven_mono (step_pos hd _) h) _
  · calc nearestRank n d
        ≤ (spacing n d + 2) * 2 ^ 52 := nearestRank_le n hd
      _ ≤ (spacing n' d + 1) * 2 ^ 52 := Nat.mul_le_mul_right _ (by omega)
      _ ≤ nearestRank n' d := first_le_nearestRank hd (by omega)

-- ================================================================== exactness

/-- A significand and a scale that belong together make a rank of this
scale and significand. -/
theorem units_of_parts {s k : Nat} (hlt : s < 2 ^ 53) (hle : k ≠ 0 → 2 ^ 52 ≤ s) :
    units (k * 2 ^ 52 + s) = s * 2 ^ k := by
  have hscale : scale (k * 2 ^ 52 + s) = k := by
    unfold scale
    omega
  have hsignificand : significand (k * 2 ^ 52 + s) = s := by
    rw [significand, hscale]
    omega
  rw [units, hscale, hsignificand]

/-- What is a multiple of its spacing is not rounded. -/
theorem units_nearestRank {n : Nat} (h : 2 ^ spacing n 1 ∣ n) : units (nearestRank n 1) = n := by
  have hlt := lt_of_spacing n Nat.one_pos
  have hle := le_of_spacing (n := n) Nat.one_pos
  unfold nearestRank
  generalize spacing n 1 = k at *
  have hpos := Nat.two_pow_pos k
  obtain ⟨s, rfl⟩ := h
  rw [Nat.one_mul, Nat.mul_comm (2 ^ k) s] at *
  rw [roundHalfEven_mul_self s hpos]
  refine units_of_parts (Nat.lt_of_mul_lt_mul_right hlt) fun hk => ?_
  exact Nat.le_of_mul_le_mul_right (hle hk) hpos

end Binary64

end Calculator
