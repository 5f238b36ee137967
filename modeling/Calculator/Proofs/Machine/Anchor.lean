/-
What was read since an operator was deferred.

`Anchored` says where in the tokens read an entry of the deferred stack was
put there. Behind an operator that waits there is a stretch of tokens that
bind tighter, up to the token of the next entry. When an operator is taken
off, it becomes part of the stretch behind the entry below it, so one lemma
about longer stretches (`Anchored.append`) is all that a step needs.

Nothing of the values is anchored, since operators may use any of them. What
is kept is a single count, made when an operator comes: if any number was read
by then, there was a value. So an operator that finds too few values has no
number in front of it or a right operand with too few of them.
-/
import Calculator.Operand
import Calculator.Proofs.Machine.Layers

namespace Calculator

open Token

variable {α : Type}

theorem Stretch.lower {j k : Nat} (hle : j ≤ k) {ts : List (Token α)} (h : Stretch k ts) :
    Stretch j ts := by
  induction h with
  | nil => exact .nil
  | number value => exact .number value
  | operator ho => exact .operator (Nat.lt_of_le_of_lt hle ho)
  | group h _ => exact .group h
  | append _ _ ih₁ ih₂ => exact .append (ih₁ hle) (ih₂ hle)

/-- Every entry of the stack with the token that put it there, and a stretch
of tokens behind it. -/
inductive Anchored : List Deferred → List (Token α) → Prop
  | bottom {ts : List (Token α)} (h : Stretch 0 ts) : Anchored [] ts
  | group {stack : List Deferred} {front ts : List (Token α)} (below : Anchored stack front)
    (h : Stretch 0 ts) : Anchored (.group :: stack) (front ++ .opening :: ts)
  /-- The operator binds tighter than the entry below, and when it came there
  was a value if there had been a number. -/
  | operator {o : Operator} {stack : List Deferred} {front ts : List (Token α)}
    (below : Anchored stack front) (hlooser : topPrecedence stack < o.precedence)
    (hvalue : 0 < count .number front →
      count .operator front < count .number front + waiting stack)
    (h : Stretch o.precedence ts) : Anchored (.operator o :: stack) (front ++ .operator o :: ts)

namespace Anchored

variable {stack below : List Deferred} {read ts : List (Token α)}

/-- A stretch that binds tighter than the operator on top leaves it waiting. -/
theorem append (h : Anchored stack read) (hts : Stretch (topPrecedence stack) ts) :
    Anchored stack (read ++ ts) := by
  cases h with
  | bottom hread => exact .bottom (.append hread hts)
  | group hbelow hread =>
      rw [List.append_assoc, List.cons_append]
      exact .group hbelow (.append hread hts)
  | operator hbelow hlooser hvalue hread =>
      rw [List.append_assoc, List.cons_append]
      exact .operator hbelow hlooser hvalue (.append hread hts)

/-- Below an operator the stack is anchored as well. -/
theorem uncover {o : Operator} (h : Anchored (.operator o :: stack) read) :
    Anchored stack read := by
  cases h with
  | operator hbelow hlooser hvalue hread =>
      refine hbelow.append ?_
      rw [← List.singleton_append]
      exact .append (.operator hlooser) (hread.lower (Nat.le_of_lt hlooser))

theorem uncover_operators {taken : List Operator}
    (h : Anchored (taken.map .operator ++ below) read) : Anchored below read := by
  induction taken with
  | nil => exact h
  | cons o taken ih => exact ih h.uncover

/-- The end of a group makes an operand of what the group holds. -/
theorem close (h : Anchored (.group :: stack) read) : Anchored stack (read ++ [.closing]) := by
  cases h with
  | group hbelow hread =>
      rw [List.append_assoc, List.cons_append]
      exact hbelow.append (.group hread)

end Anchored

namespace Machine

-- ============================================================ all the steps

/-- Once a number was read there is a value, whatever was applied. -/
theorem Ledger.lt_of_number {read : List (Token α)} {m : Machine α} (h : Ledger read m)
    (hnumber : 0 < count .number read) :
    count .operator read < count .number read + waiting m.deferred := by
  have hvalues := h.values
  by_cases hused : waiting m.deferred < count .operator read
  · have hpos := List.length_pos_iff.2 (h.used hused)
    omega
  · omega

variable [Arithmetic α]

/-- A token that goes through leaves the stack anchored. -/
theorem Fed.anchored {read : List (Token α)} {m n : Machine α} {t : Token α}
    (h : Fed m t (.ok n)) (hledger : Ledger read m) (hread : Anchored m.deferred read) :
    Anchored n.deferred (read ++ [t]) := by
  cases h with
  | number value => exact hread.append (.number value)
  | opening => exact .group hread .nil
  | operator hstack hdue hstop hrun =>
      have hleft := hledger.applied hstack hrun
      rw [hstack] at hread
      exact .operator hread.uncover_operators hstop.topPrecedence_lt hleft.lt_of_number .nil
  | closing hstack hrun =>
      rw [hstack] at hread
      exact hread.uncover_operators.close

/-- Hence the stack is anchored after every run from the beginning. -/
theorem anchored_of_run {ts : List (Token α)} {m : Machine α}
    (h : Machine.empty.run (ts.map .ok) = .ok m) : Anchored m.deferred ts := by
  have hboth := run_preserves (P := fun read m => Ledger read m ∧ Anchored m.deferred read)
    (fun h hfed => ⟨h.1.fed hfed, hfed.anchored h.1 h.2⟩) ⟨Ledger.empty, .bottom .nil⟩ h
  exact hboth.2

-- ========================================================= too few values

/-- Where an operator finds too few values, there was no number in front of
it, or the stretch behind it has no more numbers than operators. -/
theorem exists_of_short {ts : List (Token α)} {m : Machine α} {taken : List Operator}
    {o : Operator} {rest : List Deferred} {left : List α}
    (h : Machine.empty.run (ts.map .ok) = .ok m)
    (hstack : m.deferred = taken.map .operator ++ .operator o :: rest)
    (hrun : Postfix.run m.values (taken.map .apply) = .ok left) (hfew : left.length < 2) :
    ∃ before right, ts = before ++ .operator o :: right ∧ Stretch o.precedence right
      ∧ (count .number before = 0 ∨ count .number right ≤ count .operator right) := by
  have hvalues := ((ledger_of_run h).applied hstack hrun).values
  have hanchored := anchored_of_run h
  rw [hstack] at hanchored
  cases hanchored.uncover_operators with
  | @operator _ _ before right _ _ hvalue hright =>
      refine ⟨before, right, rfl, hright, ?_⟩
      by_cases hnumber : count .number before = 0
      · exact Or.inl hnumber
      · have hbefore := hvalue (Nat.pos_of_ne_zero hnumber)
        simp only [count_append, count_cons, kind, waiting, reduceIte, reduceCtorEq] at hvalues
        exact Or.inr (by omega)

end Machine

end Calculator
