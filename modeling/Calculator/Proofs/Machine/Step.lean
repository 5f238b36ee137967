/-
What one step of the machine can come to.

Every step is a drain with something around it, so the drain is opened here
once. What it did is told by the operators it took, the stack below them, and
the values after those operators were applied from the top down. Applying
operators in a row is running them as a postfix program, so
`Postfix.run values (taken.map .apply)` is the word for it throughout.

`Drained`, `Fed` and `Finished` list the outcomes of a drain, of feeding a
token and of ending the expression, each with all that is known where it
arises. Later files take a step apart by cases on one of the three and never
look at the loops again.
-/
import Calculator.Postfix

namespace Calculator

variable {α : Type}

-- ======================================================= what stops a drain

/-- A drain goes no further on this stack: it is empty, or on top there is a
marker or an operator that is not due. -/
def Stops (due : Operator → Bool) (stack : List Deferred) : Prop :=
  ∀ o rest, stack = .operator o :: rest → due o = false

theorem stops_nil (due : Operator → Bool) : Stops due [] := by
  intro o rest h
  cases h

theorem stops_group (due : Operator → Bool) (rest : List Deferred) :
    Stops due (.group :: rest) := by
  intro o rest' h
  cases h

/-- Where every operator is due, only the bottom or a marker stops a drain. -/
theorem Stops.nil_or_group {stack : List Deferred} (h : Stops (fun _ => true) stack) :
    stack = [] ∨ ∃ rest, stack = .group :: rest := by
  match stack with
  | [] => exact Or.inl rfl
  | .group :: rest => exact Or.inr ⟨rest, rfl⟩
  | .operator o :: rest => exact absurd (h o rest rfl) (by simp)

/-- Whether a token has a deferred operator applied before it takes effect. -/
def Token.forces : Token α → Operator → Bool
  | .number _, _ => false
  | .operator o, waiting => o.precedence ≤ waiting.precedence
  | .opening, _ => false
  | .closing, _ => true

variable [Arithmetic α]

-- =================================================== operators in a row

namespace Postfix

theorem run_apply_cons (right left : α) (below : List α) (o : Operator)
    (program : List (Instruction α)) :
    run (right :: left :: below) (.apply o :: program)
      = run (o.apply left right :: below) program := rfl

/-- An operator without two values is at fault. -/
theorem run_apply_of_few {values : List α} (few : values.length < 2) (o : Operator)
    (program : List (Instruction α)) :
    run values (.apply o :: program) = .error (.missingOperand o) := by
  match values, few with
  | [], _ => rfl
  | [_], _ => rfl

/-- An application that goes through found two values. -/
theorem exists_of_run_apply {values left : List α} {o : Operator}
    {program : List (Instruction α)} (h : run values (.apply o :: program) = .ok left) :
    ∃ right under below, values = right :: under :: below
      ∧ run (o.apply under right :: below) program = .ok left := by
  match values with
  | right :: under :: below => exact ⟨right, under, below, rfl, h⟩
  | [] => cases h
  | [_] => cases h

/-- A program goes on with the values that its first part leaves. -/
theorem run_append_of_ok {values left : List α} {first : List (Instruction α)}
    (h : run values first = .ok left) (second : List (Instruction α)) :
    run values (first ++ second) = run left second := by
  rw [run_append, h]
  rfl

/-- Each operator in a row makes one value of two. -/
theorem length_of_run_operators {taken : List Operator} {values left : List α}
    (h : run values (taken.map .apply) = .ok left) :
    left.length + taken.length = values.length := by
  induction taken generalizing values with
  | nil =>
      cases h
      rfl
  | cons o taken ih =>
      obtain ⟨right, under, below, rfl, hrest⟩ := exists_of_run_apply h
      have := ih hrest
      simp only [List.length_cons] at this ⊢
      omega

/-- The last operator of a row leaves its result behind. -/
theorem ne_nil_of_run_operators {taken : List Operator} {values left : List α}
    (hne : taken ≠ []) (h : run values (taken.map .apply) = .ok left) : left ≠ [] := by
  induction taken generalizing values with
  | nil => exact absurd rfl hne
  | cons o taken ih =>
      obtain ⟨right, under, below, rfl, hrest⟩ := exists_of_run_apply h
      cases taken with
      | nil =>
          cases hrest
          exact List.cons_ne_nil _ _
      | cons p taken => exact ih (List.cons_ne_nil p taken) hrest

end Postfix

namespace Machine

-- =================================================================== a drain

/-- What a drain of a stack can come to. -/
inductive Drained (due : Operator → Bool) (values : List α) : List Deferred → Step α → Prop
  -- Every operator above `below` was due and found its values.
  | done (taken : List Operator) {below : List Deferred} {left : List α}
      (hdue : ∀ o ∈ taken, due o = true) (hstop : Stops due below)
      (hrun : Postfix.run values (taken.map .apply) = .ok left) :
      Drained due values (taken.map .operator ++ below) (.ok ⟨below, left⟩)
  -- After `taken`, the operator `o` was due and found too few.
  | short (taken : List Operator) {o : Operator} {rest : List Deferred} {left : List α}
      (hdue : ∀ p ∈ taken ++ [o], due p = true)
      (hrun : Postfix.run values (taken.map .apply) = .ok left) (hfew : left.length < 2) :
      Drained due values (taken.map .operator ++ .operator o :: rest)
        (.error ⟨.missingOperand o, ⟨rest, left⟩⟩)

/-- One more operator on top, with its two values, changes nothing about what
the drain below it comes to. -/
theorem Drained.cons {due : Operator → Bool} {o : Operator} {right left : α} {below : List α}
    {stack : List Deferred} {step : Step α} (ho : due o = true)
    (h : Drained due (o.apply left right :: below) stack step) :
    Drained due (right :: left :: below) (.operator o :: stack) step := by
  cases h with
  | done taken hdue hstop hrun =>
      exact Drained.done (o :: taken) (List.forall_mem_cons.2 ⟨ho, hdue⟩) hstop hrun
  | short taken hdue hrun hfew =>
      exact Drained.short (o :: taken) (List.forall_mem_cons.2 ⟨ho, hdue⟩) hrun hfew

/-- A drain ends in one of these ways. -/
theorem drained (due : Operator → Bool) (stack : List Deferred) (values : List α) :
    Drained due values stack (drain due stack values) := by
  induction stack generalizing values with
  | nil =>
      rw [drain_nil]
      exact Drained.done [] (by simp) (stops_nil due) rfl
  | cons entry stack ih =>
      match entry with
      | .group =>
          rw [drain_group]
          exact Drained.done [] (by simp) (stops_group due stack) rfl
      | .operator o =>
          cases ho : due o with
          | false =>
              rw [drain_of_not_due ho]
              have hstop : Stops due (.operator o :: stack) := by
                intro p rest h
                cases h
                exact ho
              exact Drained.done [] (by simp) hstop rfl
          | true =>
              by_cases few : values.length < 2
              · rw [drain_of_few ho stack few]
                exact Drained.short [] (by simpa using ho) rfl few
              · match values, few with
                | right :: left :: below, _ =>
                    rw [drain_of_due ho]
                    exact Drained.cons ho (ih _)
                | [], few => simp at few
                | [_], few => simp at few

/-- Operators that are due and find their values are applied, whatever the
drain meets below them. -/
theorem drain_operators {due : Operator → Bool} {taken : List Operator} {values left : List α}
    (hdue : ∀ o ∈ taken, due o = true) (hrun : Postfix.run values (taken.map .apply) = .ok left)
    (below : List Deferred) :
    drain due (taken.map .operator ++ below) values = drain due below left := by
  induction taken generalizing values with
  | nil =>
      cases hrun
      rfl
  | cons o taken ih =>
      obtain ⟨ho, htaken⟩ := List.forall_mem_cons.1 hdue
      obtain ⟨right, under, rest, rfl, hrest⟩ := Postfix.exists_of_run_apply hrun
      rw [List.map_cons, List.cons_append, drain_of_due ho]
      exact ih htaken hrest

/-- A drain with nothing to take changes nothing. -/
theorem drain_of_stops {due : Operator → Bool} {stack : List Deferred} (h : Stops due stack)
    (values : List α) : drain due stack values = .ok ⟨stack, values⟩ := by
  match stack with
  | [] => exact drain_nil due values
  | .group :: rest => exact drain_group due rest values
  | .operator o :: rest => exact drain_of_not_due (h o rest rfl) rest values

theorem Drained.eq {due : Operator → Bool} {stack : List Deferred} {values : List α}
    {step : Step α} (h : Drained due values stack step) : drain due stack values = step := by
  cases h with
  | done taken hdue hstop hrun => rw [drain_operators hdue hrun, drain_of_stops hstop]
  | @short taken o rest left hdue hrun hfew =>
      have htaken : ∀ p ∈ taken, due p = true := fun p hp => hdue p (List.mem_append_left _ hp)
      rw [drain_operators htaken hrun, drain_of_few (hdue o (by simp)) rest hfew]

-- =================================================================== a token

/-- What feeding a token to a machine can come to. -/
inductive Fed (m : Machine α) : Token α → Step α → Prop
  | number (value : α) : Fed m (.number value) (.ok ⟨m.deferred, value :: m.values⟩)
  | opening : Fed m .opening (.ok ⟨.group :: m.deferred, m.values⟩)
  -- The operators that bind at least as tightly went first.
  | operator {o : Operator} {taken : List Operator} {below : List Deferred} {left : List α}
      (hstack : m.deferred = taken.map .operator ++ below)
      (hdue : ∀ p ∈ taken, (Token.operator (α := α) o).forces p = true)
      (hstop : Stops (Token.operator (α := α) o).forces below)
      (hrun : Postfix.run m.values (taken.map .apply) = .ok left) :
      Fed m (.operator o) (.ok ⟨.operator o :: below, left⟩)
  -- Everything above the last marker went, and the marker.
  | closing {taken : List Operator} {rest : List Deferred} {left : List α}
      (hstack : m.deferred = taken.map .operator ++ .group :: rest)
      (hrun : Postfix.run m.values (taken.map .apply) = .ok left) :
      Fed m .closing (.ok ⟨rest, left⟩)
  -- Everything went, and there was no marker.
  | unopened {taken : List Operator} {left : List α}
      (hstack : m.deferred = taken.map .operator)
      (hrun : Postfix.run m.values (taken.map .apply) = .ok left) :
      Fed m .closing (.error ⟨.unopenedGroup, ⟨[], left⟩⟩)
  -- After `taken`, the operator `o` found too few values.
  | short {token : Token α} {taken : List Operator} {o : Operator} {rest : List Deferred}
      {left : List α} (hstack : m.deferred = taken.map .operator ++ .operator o :: rest)
      (hdue : ∀ p ∈ taken ++ [o], token.forces p = true)
      (hrun : Postfix.run m.values (taken.map .apply) = .ok left) (hfew : left.length < 2) :
      Fed m token (.error ⟨.missingOperand o, ⟨rest, left⟩⟩)

/-- A token goes through or fails in one of these ways. -/
theorem fed (m : Machine α) (token : Token α) : Fed m token (m.feed token) := by
  cases token with
  | number value => exact Fed.number value
  | opening => exact Fed.opening
  | operator o =>
      have h := drained (fun waiting => o.precedence ≤ waiting.precedence) m.deferred m.values
      show Fed m (.operator o) (m.defer o)
      unfold defer
      generalize hstack : m.deferred = stack at h ⊢
      generalize drain _ stack m.values = step at h ⊢
      cases h with
      | done taken hdue hstop hrun => exact Fed.operator hstack hdue hstop hrun
      | short taken hdue hrun hfew => exact Fed.short hstack hdue hrun hfew
  | closing =>
      have h := drained (fun _ => true) m.deferred m.values
      show Fed m .closing m.closeGroup
      unfold closeGroup drainGroup
      generalize hstack : m.deferred = stack at h ⊢
      generalize drain _ stack m.values = step at h ⊢
      cases h with
      | short taken hdue hrun hfew => exact Fed.short hstack hdue hrun hfew
      | done taken hdue hstop hrun =>
          rcases hstop.nil_or_group with rfl | ⟨rest, rfl⟩
          · rw [List.append_nil] at hstack
            exact Fed.unopened hstack hrun
          · exact Fed.closing hstack hrun

theorem Fed.of_eq {m : Machine α} {token : Token α} {step : Step α} (h : m.feed token = step) :
    Fed m token step := by
  rw [← h]
  exact m.fed token

theorem Fed.eq {m : Machine α} {token : Token α} {step : Step α} (h : Fed m token step) :
    m.feed token = step := by
  cases h with
  | number value => rfl
  | opening => rfl
  | @operator o taken below left hstack hdue hstop hrun =>
      have hdrain := (Drained.done taken hdue hstop hrun).eq
      rw [← hstack] at hdrain
      show m.defer o = _
      unfold defer
      change drain (fun waiting => o.precedence ≤ waiting.precedence) _ _ = _ at hdrain
      rw [hdrain]
  | @closing taken rest left hstack hrun =>
      have hdrain := (Drained.done taken (fun _ _ => rfl) (stops_group _ rest) hrun).eq
      rw [← hstack] at hdrain
      show m.closeGroup = _
      unfold closeGroup drainGroup
      rw [hdrain]
  | @unopened taken left hstack hrun =>
      have hdrain := (Drained.done taken (fun _ _ => rfl) (stops_nil _) hrun).eq
      rw [List.append_nil, ← hstack] at hdrain
      show m.closeGroup = _
      unfold closeGroup drainGroup
      rw [hdrain]
  | @short _ taken o rest left hstack hdue hrun hfew =>
      have hdrained : Drained token.forces m.values m.deferred
          (.error ⟨.missingOperand o, ⟨rest, left⟩⟩) := by
        rw [hstack]
        exact Drained.short taken hdue hrun hfew
      have hdrain := hdrained.eq
      match token with
      | .number _ => exact absurd (hdue o (by simp)) (by simp [Token.forces])
      | .opening => exact absurd (hdue o (by simp)) (by simp [Token.forces])
      | .operator p =>
          show m.defer p = _
          unfold defer
          change drain (fun waiting => p.precedence ≤ waiting.precedence) _ _ = _ at hdrain
          rw [hdrain]
      | .closing =>
          show m.closeGroup = _
          unfold closeGroup drainGroup
          change drain (fun _ => true) _ _ = _ at hdrain
          rw [hdrain]

-- =================================================================== the end

/-- What ending the expression can come to. -/
inductive Finished (m : Machine α) : Except Fault α → Prop
  | value {taken : List Operator} {x : α} (hstack : m.deferred = taken.map .operator)
      (hrun : Postfix.run m.values (taken.map .apply) = .ok [x]) : Finished m (.ok x)
  | notOne {taken : List Operator} {left : List α} (hstack : m.deferred = taken.map .operator)
      (hrun : Postfix.run m.values (taken.map .apply) = .ok left) (hlength : left.length ≠ 1) :
      Finished m (.error .notOneValue)
  -- A marker was left under `taken`.
  | unclosed {taken : List Operator} {rest : List Deferred} {left : List α}
      (hstack : m.deferred = taken.map .operator ++ .group :: rest)
      (hrun : Postfix.run m.values (taken.map .apply) = .ok left) :
      Finished m (.error .unclosedGroup)
  -- After `taken`, the operator `o` found too few values.
  | short {taken : List Operator} {o : Operator} {rest : List Deferred} {left : List α}
      (hstack : m.deferred = taken.map .operator ++ .operator o :: rest)
      (hrun : Postfix.run m.values (taken.map .apply) = .ok left) (hfew : left.length < 2) :
      Finished m (.error (.missingOperand o))

/-- The end has a value or a fault in one of these ways. -/
theorem finished (m : Machine α) : Finished m m.finish := by
  have h := drained (fun _ => true) m.deferred m.values
  unfold finish drainGroup
  generalize hstack : m.deferred = stack at h ⊢
  generalize drain _ stack m.values = step at h ⊢
  cases h with
  | short taken hdue hrun hfew => exact Finished.short hstack hrun hfew
  | @done taken below left hdue hstop hrun =>
      rcases hstop.nil_or_group with rfl | ⟨rest, rfl⟩
      · rw [List.append_nil] at hstack
        match left with
        | [x] => exact Finished.value hstack hrun
        | [] => exact Finished.notOne hstack hrun (by simp)
        | _ :: _ :: _ => exact Finished.notOne hstack hrun (by simp)
      · exact Finished.unclosed hstack hrun

theorem Finished.of_eq {m : Machine α} {result : Except Fault α} (h : m.finish = result) :
    Finished m result := by
  rw [← h]
  exact m.finished

end Machine

end Calculator
