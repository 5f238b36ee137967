/-
What a refused token leaves.

A token is refused in the middle of a drain, which may have applied some
operators by then and may have lost one. `Unopened` and `Short` describe the
two places where a drain can fail: at the bottom, where a marker was looked
for, and at an operator that finds fewer than two values. A token fails so if,
and only if, one of the two is met.

A loop that makes its rounds one application at a time comes to what the drain
comes to, whatever the application would answer without an operator on top. So
no loop calls it there.
-/
import Calculator.Application
import Calculator.Binary64.Bits
import Calculator.Proofs.Machine.Run

namespace Calculator.Machine

variable {α : Type} [Arithmetic α]

-- ================================================================ one by one

/-- A loop that makes one application and goes on where an operator is due
goes on from where the drain ends, or fails where it fails. -/
theorem loop_eq_drain {γ : Type} (guards : Guards α) (due : Operator → Bool)
    (loop : Machine α → γ) (fails : Failure α → γ)
    (hround : ∀ o rest values, due o = true →
      loop ⟨.operator o :: rest, values⟩
        = match applyTop guards ⟨.operator o :: rest, values⟩ with
          | .ok n => loop n
          | .error failure => fails failure)
    (stack : List Deferred) (values : List α) :
    loop ⟨stack, values⟩ = match drain due stack values with
      | .ok n => loop n
      | .error failure => fails failure := by
  induction stack generalizing values with
  | nil => rw [drain_nil]
  | cons entry stack ih =>
      match entry with
      | .group => rw [drain_group]
      | .operator o =>
          cases ho : due o with
          | false => rw [drain_of_not_due ho]
          | true =>
              rw [hround o stack values ho]
              match values with
              | right :: left :: below =>
                  rw [drain_of_due ho]
                  exact ih _
              | [] => rw [drain_of_few ho stack (by simp), applyTop]
              | [_] => rw [drain_of_few ho stack (by simp), applyTop]

/-- One turn of the loop: the operator on top is applied, and its failure is
the failure of the loop. -/
theorem deferBy_of_forced {guards : Guards α} {o p : Operator} (h : o.precedence ≤ p.precedence)
    (rest : List Deferred) (values : List α) :
    deferBy guards o ⟨.operator p :: rest, values⟩
      = match applyTop guards ⟨.operator p :: rest, values⟩ with
        | .ok n => n.deferBy guards o
        | .error failure => .error failure := by
  rw [deferBy]
  refine (if_neg (Nat.not_lt.2 h)).trans ?_
  rcases values with _ | ⟨_, _ | ⟨_, _⟩⟩ <;> rfl

theorem deferBy_of_stops {guards : Guards α} {o : Operator} {stack : List Deferred}
    (h : Stops (Token.operator (α := α) o).forces stack) (values : List α) :
    deferBy guards o ⟨stack, values⟩ = .ok ⟨.operator o :: stack, values⟩ := by
  rw [deferBy]
  match stack with
  | [] => rfl
  | .group :: rest => rfl
  | .operator p :: rest => exact if_pos (Nat.lt_of_not_le (of_decide_eq_false (h p rest rfl)))

/-- None of the guards is asked before an operator goes onto the stack. -/
theorem deferBy_eq (guards : Guards α) (o : Operator) (m : Machine α) :
    m.deferBy guards o = m.defer o := by
  obtain ⟨stack, values⟩ := m
  have h := drained (fun waiting => o.precedence ≤ waiting.precedence) stack values
  rw [loop_eq_drain guards (fun waiting => o.precedence ≤ waiting.precedence) (deferBy guards o)
    .error (fun _ _ _ hp => deferBy_of_forced (of_decide_eq_true hp) _ _), defer]
  generalize drain _ stack values = step at h ⊢
  cases h with
  | done taken hdue hstop hrun => exact deferBy_of_stops hstop _
  | short taken hdue hrun hfew => rfl

/-- One turn of the loop that closes a group. -/
theorem closeGroupBy_of_operator (guards : Guards α) (o : Operator) (rest : List Deferred)
    (values : List α) :
    closeGroupBy guards ⟨.operator o :: rest, values⟩
      = match applyTop guards ⟨.operator o :: rest, values⟩ with
        | .ok n => n.closeGroupBy guards
        | .error failure => .error failure := by
  rw [closeGroupBy]
  rcases values with _ | ⟨_, _ | ⟨_, _⟩⟩ <;> rfl

theorem closeGroupBy_eq (guards : Guards α) (m : Machine α) :
    m.closeGroupBy guards = m.closeGroup := by
  obtain ⟨stack, values⟩ := m
  have h := drained (fun _ => true) stack values
  rw [loop_eq_drain guards (fun _ => true) (closeGroupBy guards) .error
    (fun _ _ _ _ => closeGroupBy_of_operator guards _ _ _), closeGroup, drainGroup]
  generalize drain _ stack values = step at h ⊢
  cases h with
  | short taken hdue hrun hfew => rfl
  | @done taken below left hdue hstop hrun =>
      rcases hstop.nil_or_group with rfl | ⟨rest, rfl⟩
      · show closeGroupBy guards ⟨[], left⟩ = _
        rw [closeGroupBy]
      · show closeGroupBy guards ⟨.group :: rest, left⟩ = _
        rw [closeGroupBy]

/-- So whatever the guards would do, a token does the same. -/
theorem feedBy_eq (guards : Guards α) (m : Machine α) (t : Token α) :
    m.feedBy guards t = m.feed t := by
  cases t with
  | number value => rfl
  | operator o => exact deferBy_eq guards o m
  | opening => rfl
  | closing => exact closeGroupBy_eq guards m

theorem finishBy_of_operator (guards : Guards α) (o : Operator) (rest : List Deferred)
    (values : List α) :
    finishBy guards ⟨.operator o :: rest, values⟩
      = match applyTop guards ⟨.operator o :: rest, values⟩ with
        | .ok n => n.finishBy guards
        | .error failure => .error failure.fault := by
  rw [finishBy]
  rcases values with _ | ⟨_, _ | ⟨_, _⟩⟩ <;> rfl

theorem finishBy_eq (guards : Guards α) (m : Machine α) : m.finishBy guards = m.finish := by
  obtain ⟨stack, values⟩ := m
  have h := drained (fun _ => true) stack values
  rw [loop_eq_drain guards (fun _ => true) (finishBy guards) (fun failure => .error failure.fault)
    (fun _ _ _ _ => finishBy_of_operator guards _ _ _), finish, drainGroup]
  generalize drain _ stack values = step at h ⊢
  cases h with
  | short taken hdue hrun hfew => rfl
  | @done taken below left hdue hstop hrun =>
      rcases hstop.nil_or_group with rfl | ⟨rest, rfl⟩
      · show finishBy guards ⟨[], left⟩ = _
        rw [finishBy]
        rcases left with _ | ⟨_, _ | ⟨_, _⟩⟩ <;> rfl
      · show finishBy guards ⟨.group :: rest, left⟩ = _
        rw [finishBy]

-- =============================================================== a failure

/-- A closing parenthesis found no marker: every operator was applied, from
the top down, and nothing is deferred any more. -/
structure Unopened (m : Machine α) (t : Token α) (failure : Failure α) (taken : List Operator) :
    Prop where
  token : t = .closing
  fault : failure.fault = .unopenedGroup
  stack : m.deferred = taken.map .operator
  noGroup : .group ∉ m.deferred
  deferred : failure.left.deferred = []
  values : Postfix.run m.values (taken.map .apply) = .ok failure.left.values
  length : failure.left.values.length + m.deferred.length = m.values.length

/-- After the operators `taken` were applied, from the top down, the operator
`o` below them found fewer than two values. It is gone, the token is not on
the stack, and what lay below is left. -/
structure Short (m : Machine α) (t : Token α) (failure : Failure α) (taken : List Operator)
    (o : Operator) : Prop where
  token : t = .closing ∨ ∃ p, t = .operator p ∧ ∀ q ∈ taken ++ [o], p.precedence ≤ q.precedence
  fault : failure.fault = .missingOperand o
  stack : m.deferred = taken.map .operator ++ .operator o :: failure.left.deferred
  values : Postfix.run m.values (taken.map .apply) = .ok failure.left.values
  length : failure.left.values.length + taken.length = m.values.length
  few : failure.left.values.length ≤ 1

/-- A token can fail in these two ways and no other. -/
theorem Fed.unopened_or_short {m : Machine α} {t : Token α} {failure : Failure α}
    (h : Fed m t (.error failure)) :
    (∃ taken, Unopened m t failure taken) ∨ ∃ taken o, Short m t failure taken o := by
  cases h with
  | @unopened taken left hstack hrun =>
      refine Or.inl ⟨taken, rfl, rfl, hstack, ?_, rfl, hrun, ?_⟩
      · rw [hstack]
        simp
      · rw [hstack, List.length_map]
        exact Postfix.length_of_run_operators hrun
  | @short _ taken o rest left hstack hdue hrun hfew =>
      refine Or.inr ⟨taken, o, ?_, rfl, hstack, hrun, Postfix.length_of_run_operators hrun,
        Nat.le_of_lt_succ hfew⟩
      match t with
      | .closing => exact Or.inl rfl
      | .operator p => exact Or.inr ⟨p, rfl, fun q hq => of_decide_eq_true (hdue q hq)⟩
      | .number _ => exact absurd (hdue o (by simp)) (by simp [Token.forces])
      | .opening => exact absurd (hdue o (by simp)) (by simp [Token.forces])

theorem Unopened.feed_eq {m : Machine α} {t : Token α} {failure : Failure α}
    {taken : List Operator} (h : Unopened m t failure taken) : m.feed t = .error failure := by
  obtain ⟨fault, ⟨deferred, left⟩⟩ := failure
  obtain ⟨rfl, rfl, hstack, -, rfl, hrun, -⟩ := h
  exact (Fed.unopened hstack hrun).eq

theorem Short.feed_eq {m : Machine α} {t : Token α} {failure : Failure α}
    {taken : List Operator} {o : Operator} (h : Short m t failure taken o) :
    m.feed t = .error failure := by
  obtain ⟨fault, ⟨deferred, left⟩⟩ := failure
  obtain ⟨htoken, rfl, hstack, hrun, -, hfew⟩ := h
  refine (Fed.short hstack ?_ hrun (Nat.lt_succ_of_le hfew)).eq
  intro q hq
  rcases htoken with rfl | ⟨p, rfl, htight⟩
  · rfl
  · exact decide_eq_true (htight q hq)

/-- A token fails on a machine, and leaves what it leaves, exactly in two
cases: it is a closing parenthesis that finds no marker, or it forces an
operator that finds too few values. And the loops never make an application
where no operator is on top: any answer to it comes to the same as the
standard one, which is what feeding the token and ending the expression come
to. -/
theorem feed_fails_iff (m : Machine α) (t : Token α) :
    (∀ failure, m.feed t = .error failure ↔
      (∃ taken, Unopened m t failure taken) ∨ ∃ taken o, Short m t failure taken o)
    ∧ (m.feedBy .standard t = m.feed t ∧ m.finishBy .standard = m.finish)
    ∧ ∀ guards : Guards α,
        m.feedBy guards t = m.feedBy .standard t ∧ m.finishBy guards = m.finishBy .standard := by
  refine ⟨fun failure => ⟨fun h => (Fed.of_eq h).unopened_or_short, ?_⟩,
    ⟨feedBy_eq _ m t, finishBy_eq _ m⟩, fun guards => ⟨?_, ?_⟩⟩
  · rintro (⟨taken, h⟩ | ⟨taken, o, h⟩)
    · exact h.feed_eq
    · exact h.feed_eq
  · rw [feedBy_eq, feedBy_eq]
  · rw [finishBy_eq, finishBy_eq]

/-- A closing parenthesis behind `1 + 2 *`: the product is applied, and the
sum under it fails on what is left. -/
theorem closing_fails_under_product :
    let one := Binary64.ofBits 0x3ff0000000000000#64
    let two := Binary64.ofBits 0x4000000000000000#64
    let m : Machine Binary64 := ⟨[.operator .mul, .operator .add], [two, one]⟩
    m.feed .closing = .error ⟨.missingOperand .add, ⟨[], [two]⟩⟩
      ∧ ∃ taken o, Short m .closing ⟨.missingOperand .add, ⟨[], [two]⟩⟩ taken o := by
  intro one two m
  have hfeed : m.feed .closing = .error ⟨.missingOperand .add, ⟨[], [two]⟩⟩ := by decide +kernel
  rcases ((feed_fails_iff m .closing).1 _).1 hfeed with ⟨taken, h⟩ | hshort
  · cases h.fault
  · exact ⟨hfeed, hshort⟩

end Calculator.Machine
