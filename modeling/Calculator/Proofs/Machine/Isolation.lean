/-
What a group leaves of the older values.

All groups share one stack of values, and nothing on it marks where a group
was opened. An operator in a group uses older values if it finds too few of
the group's own, as in `5 ( * 2 )`. Which values it finds depends on the
tokens of the group alone: they write the same postfix instructions whatever
surrounds the group, and `Enough k` says of these that they find two values
each time if there are `k` older ones.
-/
import Calculator.Binary64.Bits
import Calculator.Proofs.Machine.Group
import Calculator.Proofs.Postfix.Written

namespace Calculator

open Token Postfix

variable {α : Type} [Arithmetic α]

-- =============================================================== the program

/-- A program that needs no more than the `k` values on top leaves the others
at the bottom, whatever they are. -/
theorem Postfix.exists_run_take {values left : List α} {program : List (Instruction α)} {k : Nat}
    (h : run values program = .ok left) (henough : Enough k program) :
    ∃ own, left = own ++ values.drop k
      ∧ ∀ older, run (values.take k ++ older) program = .ok (own ++ older) := by
  have hfits : Enough (values.take k).length program := by
    rw [List.length_take]
    rcases Nat.le_total k values.length with hk | hk
    · rwa [Nat.min_eq_left hk]
    · -- there are not even `k` values, and the program ran all the same
      rw [Nat.min_eq_right hk]
      exact exists_run_eq_ok_iff.1 ⟨left, h⟩
  obtain ⟨own, hown⟩ := exists_run_eq_ok_iff.2 hfits
  have hall := run_above hown (values.drop k)
  rw [List.take_append_drop, h] at hall
  exact ⟨own, Except.ok.inj hall, run_above hown⟩

/-- A program that needs more values than there are misses an operand. -/
theorem Postfix.exists_run_eq_missingOperand {values : List α} {program : List (Instruction α)}
    (h : ¬ Enough values.length program) : ∃ o, run values program = .error (.missingOperand o) := by
  cases hrun : run values program with
  | ok left => exact absurd (exists_run_eq_ok_iff.1 ⟨left, hrun⟩) h
  | error fault =>
      obtain ⟨-, o, -, -, -, -, -, rfl⟩ := exists_of_run_error hrun
      exact ⟨o, rfl⟩

namespace Machine

variable {inside : List (Token α)} {base m : Machine α}

-- ================================================================= the group

/-- While a group is open, and when its end has been read, the value stack is
what the instructions of the group make of it. If `k` older values are enough
for the operators among them, the values below the `k` on top are still at the
bottom, and any others in their place would be. If `k` are not enough, the
group fails where there are no more than these. They are enough if at no point
more than `k` gaps in the group are without a surplus operand in front of
them. -/
theorem group_spares_values (hinside : Nested inside.dropLast)
    (hrun : base.run ((.opening :: inside).map .ok) = .ok m) :
    Postfix.run base.values (written [] inside) = .ok m.values
    ∧ (∀ k, Enough k (written [] inside) →
      ∃ own, m.values = own ++ base.values.drop k
        ∧ ∀ older, Machine.run ⟨base.deferred, base.values.take k ++ older⟩
            ((.opening :: inside).map .ok) = .ok ⟨m.deferred, own ++ older⟩)
    ∧ (∀ k, k ≤ base.values.length → ¬ Enough k (written [] inside) →
      ∃ o left, Machine.run ⟨base.deferred, base.values.take k⟩
          ((.opening :: inside).map .ok) = .error ⟨.missingOperand o, left⟩)
    ∧ ∀ k, (∀ front, front <+: inside → gapsPassed false front ≤ k + surplus false front) →
      Enough k (written [] inside) := by
  have hwritten : written base.deferred (.opening :: inside) = written [] inside :=
    written_inside hinside base.deferred
  have hthere : Postfix.run base.values (written [] inside) = .ok m.values :=
    hwritten ▸ run_written hrun
  refine ⟨hthere, fun k henough => ?_, fun k hk hfew => ?_, fun k hgaps => enough_of_gaps hgaps⟩
  · obtain ⟨own, hvalues, habove⟩ := exists_run_take hthere henough
    refine ⟨own, hvalues, fun older => ?_⟩
    exact run_eq_ok_of_written hrun (by rw [hwritten, habove older])
  · have hfew' : ¬ Enough (base.values.take k).length (written [] inside) := by
      rwa [List.length_take, Nat.min_eq_left hk]
    obtain ⟨o, hmissing⟩ := exists_run_eq_missingOperand hfew'
    obtain ⟨left, hfails⟩ := exists_run_eq_error_of_written hrun (by rw [hwritten, hmissing])
    exact ⟨o, left, hfails⟩

/-- In `( * 3 5 )` the gap comes before the operand that makes up for it, and no
older value is needed. -/
example (x y : α) : Enough 0 (written [] [.operator .mul, .number x, .number y, .closing]) := by
  have hwritten : written [] [.operator .mul, .number x, .number y, .closing]
      = [.push x, .push y, .apply .mul] := rfl
  simp [hwritten, enough_push, enough_apply, enough_nil]

/-- In `7 5 ( * 2 )` the product uses the 5. The 7 is still there when the
group has ended, and without the 5 the product fails. -/
theorem group_spares_all_but_one :
    let two := Binary64.ofBits 0x4000000000000000#64
    let five := Binary64.ofBits 0x4014000000000000#64
    let seven := Binary64.ofBits 0x401c000000000000#64
    let ten := Binary64.ofBits 0x4024000000000000#64
    let inside : List (Token Binary64) := [.operator .mul, .number two, .closing]
    Machine.empty.run ([.number seven, .number five].map .ok) = .ok ⟨[], [five, seven]⟩
      ∧ Nested inside.dropLast
      ∧ Machine.run ⟨[], [five, seven]⟩ ((.opening :: inside).map .ok) = .ok ⟨[], [ten, seven]⟩
      ∧ Enough 1 (written [] inside) ∧ ¬ Enough 0 (written [] inside)
      ∧ (∃ own, [ten, seven] = own ++ [seven]
        ∧ ∀ older, Machine.run ⟨[], five :: older⟩ ((.opening :: inside).map .ok)
            = .ok ⟨[], own ++ older⟩)
      ∧ ∃ o left, Machine.run ⟨[], []⟩ ((.opening :: inside).map .ok)
          = .error ⟨.missingOperand o, left⟩ := by
  intro two five seven ten inside
  have hnested : Nested inside.dropLast :=
    (nested_nil.snoc (t := .operator .mul) (by simp)).snoc (t := .number two) (by simp)
  have hrun : Machine.run ⟨[], [five, seven]⟩ ((.opening :: inside).map .ok)
      = .ok ⟨[], [ten, seven]⟩ := by decide +kernel
  have hwritten : written [] inside = [.push two, .apply .mul] := rfl
  have hone : Enough 1 (written [] inside) := by
    simp [hwritten, enough_push, enough_apply, enough_nil]
  have hnone : ¬ Enough 0 (written [] inside) := by
    simp [hwritten, enough_push, enough_apply]
  obtain ⟨-, hspares, hfails, -⟩ := group_spares_values hnested hrun
  exact ⟨rfl, hnested, hrun, hone, hnone, hspares 1 hone, hfails 0 (Nat.zero_le _) hnone⟩

/-- In `5 ( * 2 )` nothing fails, and the value from before the group is gone
when the group has ended. -/
theorem group_uses_older_value :
    let two := Binary64.ofBits 0x4000000000000000#64
    let five := Binary64.ofBits 0x4014000000000000#64
    ∃ base m : Machine Binary64, Machine.empty.run ([.number five].map .ok) = .ok base
      ∧ base.run ([.opening, .operator .mul, .number two, .closing].map .ok) = .ok m
      ∧ ¬ base.values <:+ m.values := by
  intro two five
  refine ⟨⟨[], [five]⟩, ⟨[], [.ofBits 0x4024000000000000#64]⟩, rfl, ?_, ?_⟩
  · decide +kernel
  · decide +kernel

end Machine

end Calculator
