/-
The machine does in one pass what conversion and run do in two.

Let the machine stand at some point of its tokens. What it has still to do is
to convert the rest of the tokens on top of its deferred stack, and to run
the program that comes out on top of its values (`outcome_eq_value`). The
induction is on the tokens that are left, with the machine quantified.

The two phases find their faults at different times, a missing operand when
the whole conversion is over. The order is the machine's all the same: the
conversion writes every operator that it took off before it stopped at a
parenthesis, so a run that fails on them stands for a machine that failed in
a drain, which comes before the parenthesis is looked for.
-/
import Calculator.Proofs.Machine.Run

namespace Calculator.Postfix

-- ============================================================== the stack

/-- Operators that are due are taken before those below them. -/
theorem takeDue_append {due : Operator → Bool} {taken : List Operator}
    (hdue : ∀ o ∈ taken, due o = true) (stack : List Deferred) :
    takeDue due (taken.map .operator ++ stack)
      = (taken ++ (takeDue due stack).1, (takeDue due stack).2) := by
  induction taken with
  | nil => rfl
  | cons o taken ih =>
      obtain ⟨ho, htaken⟩ := List.forall_mem_cons.1 hdue
      rw [List.map_cons, List.cons_append, takeDue, if_pos ho, ih htaken]
      rfl

/-- Nothing is taken where a drain would stop. -/
theorem takeDue_of_stops {due : Operator → Bool} {stack : List Deferred}
    (hstop : Stops due stack) : takeDue due stack = ([], stack) := by
  match stack with
  | [] => rfl
  | .group :: rest => rfl
  | .operator o :: rest =>
      rw [takeDue, hstop o rest rfl]
      rfl

/-- Operators that are due above a stack that stops a drain are what is
taken. -/
theorem takeDue_eq {due : Operator → Bool} {taken : List Operator} {below : List Deferred}
    (hdue : ∀ o ∈ taken, due o = true) (hstop : Stops due below) :
    takeDue due (taken.map .operator ++ below) = (taken, below) := by
  rw [takeDue_append hdue, takeDue_of_stops hstop, List.append_nil]

/-- At the end everything is taken from a stack without markers. -/
theorem takeDue_operators (taken : List Operator) :
    takeDue (fun _ => true) (taken.map .operator) = (taken, []) := by
  rw [← List.append_nil (taken.map _)]
  exact takeDue_eq (fun _ _ => rfl) (stops_nil _)

theorem takeDue_group (taken : List Operator) (rest : List Deferred) :
    takeDue (fun _ => true) (taken.map .operator ++ .group :: rest) = (taken, .group :: rest) :=
  takeDue_eq (fun _ _ => rfl) (stops_group _ rest)

/-- The operators that are due under `o` are taken with it. -/
theorem takeDue_short {due : Operator → Bool} {taken : List Operator} {o : Operator}
    (hdue : ∀ p ∈ taken ++ [o], due p = true) (rest : List Deferred) :
    ∃ more below, takeDue due (taken.map .operator ++ .operator o :: rest)
      = (taken ++ o :: more, below) := by
  refine ⟨(takeDue due rest).1, (takeDue due rest).2, ?_⟩
  have h := takeDue_append hdue rest
  simpa using h

-- ========================================================== whole programs

variable {α : Type} [Arithmetic α]

/-- What a program comes to on top of values that are there already. -/
def Program.value (values : List α) (p : Program α) : Except Fault α :=
  match run values p.instructions, p.stop with
  | .error fault, _ => .error fault
  | .ok _, some fault => .error fault
  | .ok [x], none => .ok x
  | .ok _, none => .error .notOneValue

/-- A fault of the run comes first. -/
theorem Program.value_of_error {values : List α} {p : Program α} {fault : Fault}
    (h : run values p.instructions = .error fault) : p.value values = .error fault := by
  unfold Program.value
  rw [h]

/-- The fault that stopped the conversion comes after the run. -/
theorem Program.value_of_stop {values left : List α} {program : List (Instruction α)}
    (h : run values program = .ok left) (fault : Fault) :
    (Program.mk program (some fault)).value values = .error fault := by
  unfold Program.value
  rw [h]

/-- Instructions in front that run through leave their values to the others. -/
theorem Program.value_after_of_ok {values left : List α} {front : List (Instruction α)}
    (h : run values front = .ok left) (p : Program α) :
    (p.after front).value values = p.value left := by
  unfold Program.value Program.after
  rw [run_append_of_ok h]

/-- Operators in a row, of which one finds too few values. -/
theorem run_operators_short {taken : List Operator} {values left : List α}
    (hrun : run values (taken.map .apply) = .ok left) (hfew : left.length < 2)
    (o : Operator) (more : List Operator) (program : List (Instruction α)) :
    run values ((taken ++ o :: more).map .apply ++ program) = .error (.missingOperand o) := by
  rw [List.map_append, List.append_assoc, run_append_of_ok hrun]
  exact run_apply_of_few hfew o _

-- =========================================================== the simulation

/-- A token that goes through: the conversion writes what the machine
applies, and leaves the stack that the machine leaves. -/
theorem convert_of_fed {m n : Machine α} {t : Token α} (h : Machine.Fed m t (.ok n)) :
    ∃ front, read m.deferred t = (front, n.deferred) ∧ run m.values front = .ok n.values
      ∧ ∀ ts, convert m.deferred (t :: ts) = (convert n.deferred ts).after front := by
  cases h with
  | number value => exact ⟨[.push value], rfl, rfl, fun ts => rfl⟩
  | opening => exact ⟨[], rfl, rfl, fun ts => rfl⟩
  | @operator o taken below left hstack hdue hstop hrun =>
      have htake : takeDue (fun waiting => o.precedence ≤ waiting.precedence)
          (taken.map .operator ++ below) = (taken, below) := takeDue_eq hdue hstop
      refine ⟨taken.map .apply, ?_, hrun, fun ts => ?_⟩
      · simp only [read, hstack, htake]
      · simp only [convert, hstack, htake]
  | @closing taken rest left hstack hrun =>
      refine ⟨taken.map .apply, ?_, hrun, fun ts => ?_⟩
      · simp only [read, hstack, takeDue_group, List.tail_cons]
      · simp only [convert, hstack, takeDue_group]

/-- A token that fails: what the conversion writes fails the same way, or the
conversion stops for the same reason. -/
theorem value_of_fed {m : Machine α} {t : Token α} {failure : Failure α}
    (h : Machine.Fed m t (.error failure)) (ts : List (Token α)) :
    (convert m.deferred (t :: ts)).value m.values = .error failure.fault := by
  cases h with
  | unopened hstack hrun =>
      simp only [convert, hstack, takeDue_operators]
      exact Program.value_of_stop hrun _
  | @short _ taken o rest left hstack hdue hrun hfew =>
      obtain ⟨more, below, htake⟩ := takeDue_short hdue rest
      have hshort := run_operators_short hrun hfew o more
      apply Program.value_of_error
      match t with
      | .number _ => exact absurd (hdue o (by simp)) (by simp [Token.forces])
      | .opening => exact absurd (hdue o (by simp)) (by simp [Token.forces])
      | .operator p =>
          change takeDue (fun waiting => p.precedence ≤ waiting.precedence) _ = _ at htake
          simp only [convert, hstack, htake]
          exact hshort _
      | .closing =>
          change takeDue (fun _ => true) _ = _ at htake
          cases below with
          | nil => simpa only [convert, hstack, htake, List.append_nil] using hshort []
          | cons entry below =>
              simp only [convert, hstack, htake]
              exact hshort _

/-- The end: the conversion writes what the machine applies, and stops where
the machine finds a marker. -/
theorem value_of_finished {m : Machine α} {result : Except Fault α}
    (h : Machine.Finished m result) : (convert m.deferred []).value m.values = result := by
  cases h with
  | value hstack hrun =>
      simp only [convert, hstack, takeDue_operators]
      unfold Program.value
      rw [hrun]
  | @notOne taken left hstack hrun hlength =>
      simp only [convert, hstack, takeDue_operators]
      unfold Program.value
      rw [hrun]
      match left, hlength with
      | [], _ => rfl
      | _ :: _ :: _, _ => rfl
  | unclosed hstack hrun =>
      simp only [convert, hstack, takeDue_group]
      exact Program.value_of_stop hrun _
  | @short taken o rest left hstack hrun hfew =>
      have hdue : ∀ p ∈ taken ++ [o], (fun _ : Operator => true) p = true := fun _ _ => rfl
      obtain ⟨more, below, htake⟩ := takeDue_short hdue rest
      have hshort := run_operators_short hrun hfew o more []
      rw [List.append_nil] at hshort
      apply Program.value_of_error
      cases below with
      | nil => simpa only [convert, hstack, htake] using hshort
      | cons entry below => simpa only [convert, hstack, htake] using hshort

/-- A machine at any point of its tokens comes to what the conversion of the
rest, on top of its stack, comes to on top of its values. -/
theorem outcome_eq_value (m : Machine α) (tokens : List (Token α)) :
    m.outcome tokens = (convert m.deferred tokens).value m.values := by
  induction tokens generalizing m with
  | nil =>
      rw [Machine.outcome_nil]
      exact (value_of_finished m.finished).symm
  | cons t ts ih =>
      cases hfeed : m.feed t with
      | error failure =>
          rw [Machine.outcome_cons_of_error hfeed, value_of_fed (Machine.Fed.of_eq hfeed)]
      | ok n =>
          obtain ⟨front, -, hrun, hconvert⟩ := convert_of_fed (Machine.Fed.of_eq hfeed)
          rw [Machine.outcome_cons_of_ok hfeed, ih, hconvert, Program.value_after_of_ok hrun]

/-- One pass over two stacks and two passes over one stack each come to the
same, value or fault, for all tokens whatever. -/
theorem machine_eq_conversion_then_run (tokens : List (Token α)) :
    (match Machine.empty.run (tokens.map .ok) with
      | .ok m => m.finish
      | .error failure => .error failure.fault)
      = value tokens :=
  outcome_eq_value Machine.empty tokens

end Calculator.Postfix
