/-
Tokens with a gap have one somewhere.

`gaps` counts, here the places themselves are found. Read from the left, what
matters of the tokens in front of a place is whether an operand ends with
them. Tokens with no more numbers than operators always have a gap
(`gapIn_of_few_numbers`), by the balance of numbers, operators, surplus and
gaps.
-/
import Calculator.Operand
import Calculator.Proofs.Token.Count

namespace Calculator

open Token

variable {α : Type} {front ts : List (Token α)} {after : List (Except Fault (Token α))}

-- ======================================================== sides of a place

/-- Whether an operand ends with the last of the tokens. -/
def endsOperand (ts : List (Token α)) : Bool :=
  ts.getLast?.any fun t => t.kind = .number ∨ t.kind = .closing

/-- The last token tells whether an operand ends. -/
theorem endsOperand_snoc (ts : List (Token α)) (t : Token α) :
    endsOperand (ts ++ [t]) = decide (t.kind = .number ∨ t.kind = .closing) := by
  simp [endsOperand]

theorem noneEnds_of_endsOperand (h : endsOperand ts = false) : NoneEnds (ts.map .ok) := by
  intro item hitem
  rw [List.getLast?_map, Option.mem_def, Option.map_eq_some_iff] at hitem
  obtain ⟨t, ht, rfl⟩ := hitem
  rw [endsOperand, ht] at h
  cases t with
  | number value => cases h
  | operator o => exact Or.inr ⟨o, rfl⟩
  | opening => exact Or.inl rfl
  | closing => cases h

/-- No operand begins with an operator. -/
theorem noneBegins_operator (o : Operator) (items : List (Except Fault (Token α))) :
    NoneBegins (.ok (.operator o) :: items) := by
  intro item hitem
  cases hitem
  exact Or.inr ⟨o, rfl⟩

theorem noneBegins_closing (items : List (Except Fault (Token α))) :
    NoneBegins (.ok .closing :: items) := by
  intro item hitem
  cases hitem
  exact Or.inl rfl

-- ================================================================== places

/-- Where no operand ends in front and none begins behind, there is a gap. -/
theorem gapIn_of_front (hfront : endsOperand front = false)
    (hts : NoneBegins (ts.map .ok ++ after)) : GapIn front ts after := by
  refine ⟨[], ts, rfl, ?_, hts⟩
  rw [List.append_nil]
  exact noneEnds_of_endsOperand hfront

/-- A gap further on is a gap. -/
theorem GapIn.cons {t : Token α} (h : GapIn (front ++ [t]) ts after) :
    GapIn front (t :: ts) after := by
  obtain ⟨fore, back, rfl, hgap⟩ := h
  refine ⟨t :: fore, back, rfl, ?_⟩
  rwa [List.append_cons]

/-- What is counted as a gap is found as one, if no operand begins behind the
tokens. -/
theorem gapIn_of_gaps (hafter : NoneBegins after) (h : 0 < gaps (endsOperand front) ts) :
    GapIn front ts after := by
  -- `front` takes in the tokens that have been passed
  induction ts generalizing front with
  | nil =>
      cases hends : endsOperand front with
      | false => exact gapIn_of_front hends hafter
      | true => simp [hends, gaps] at h
  | cons t ts ih =>
      have hbehind : 0 < gaps (decide (t.kind = .number ∨ t.kind = .closing)) ts →
          GapIn front (t :: ts) after := by
        rw [← endsOperand_snoc front]
        exact fun h => (ih h).cons
      cases t with
      | number value => exact hbehind h
      | opening => exact hbehind h
      | operator o =>
          cases hends : endsOperand front with
          | false => exact gapIn_of_front hends (noneBegins_operator o _)
          | true => exact hbehind (by simpa [gaps, hends] using h)
      | closing =>
          cases hends : endsOperand front with
          | false => exact gapIn_of_front hends (noneBegins_closing _)
          | true => exact hbehind (by simpa [gaps, hends] using h)

/-- Tokens with no more numbers than operators have a gap, where no operand
ends in front of them and none begins behind them. -/
theorem gapIn_of_few_numbers (hfew : count .number ts ≤ count .operator ts)
    (hfront : endsOperand front = false) (hafter : NoneBegins after) : GapIn front ts after := by
  apply gapIn_of_gaps hafter
  have hbalance := count_add_gaps false ts
  rw [Bool.toNat_false] at hbalance
  rw [hfront]
  omega

end Calculator
