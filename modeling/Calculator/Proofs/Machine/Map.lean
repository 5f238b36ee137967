/-
The machine does not look at values.

A map from one type of values to another is *faithful* if it carries the
result of every operator over to the result of that operator. Under a faithful
map of its values a machine behaves the same: it drains, takes a token, fails
and ends exactly where it did, with the same fault, and every value that it
leaves is the map of the value it left. The map may forget as much as it likes.
Forgetting the numbers themselves is faithful too, so control never depends on
them.
-/
import Calculator.Proofs.Machine.Run

namespace Calculator

variable {α β : Type}

def Failure.map (f : α → β) (failure : Failure α) : Failure β :=
  ⟨failure.fault, ⟨failure.left.deferred, failure.left.values.map f⟩⟩

def Machine.map (f : α → β) (m : Machine α) : Machine β := ⟨m.deferred, m.values.map f⟩

/-- The same step over other values. -/
def Step.map (f : α → β) : Step α → Step β
  | .ok m => .ok (m.map f)
  | .error failure => .error (failure.map f)

/-- What is left after a step, failed or not, is mapped with it. -/
theorem Step.machine_map (f : α → β) (step : Step α) :
    (step.map f).machine = step.machine.map f := by
  cases step with
  | ok m => rfl
  | error failure => rfl

variable [Arithmetic α] [Arithmetic β] {f : α → β}

/-- The map carries the operators over. -/
def Faithful (f : α → β) : Prop :=
  ∀ (o : Operator) (left right : α), f (o.apply left right) = o.apply (f left) (f right)

/-- Operators in a row that go through do so over the mapped values, and leave
the map of what they left. -/
theorem Postfix.run_map (hf : Faithful f) {values left : List α} {taken : List Operator}
    (h : run values (taken.map .apply) = .ok left) :
    run (values.map f) (taken.map .apply) = .ok (left.map f) := by
  induction taken generalizing values with
  | nil =>
      cases h
      rfl
  | cons o taken ih =>
      obtain ⟨right, under, below, rfl, hrest⟩ := exists_of_run_apply h
      rw [List.map_cons, List.map_cons, List.map_cons, run_apply_cons, ← hf]
      exact ih hrest

namespace Machine

-- ==================================================================== a step

/-- A drain stops at the same operator of the stack, with the same fault. -/
theorem drain_map (hf : Faithful f) (due : Operator → Bool) (stack : List Deferred)
    (values : List α) : drain due stack (values.map f) = (drain due stack values).map f := by
  have h := drained due stack values
  generalize drain due stack values = step at h
  cases h with
  | done taken hdue hstop hrun => exact (Drained.done taken hdue hstop (Postfix.run_map hf hrun)).eq
  | short taken hdue hrun hfew =>
      refine (Drained.short taken hdue (Postfix.run_map hf hrun) ?_).eq
      rwa [List.length_map]

/-- The drain that an operator starts goes by precedences alone, and what it
pushes holds no value. -/
theorem defer_map (hf : Faithful f) (o : Operator) (m : Machine α) :
    (m.map f).defer o = (m.defer o).map f := by
  unfold defer
  simp only [Machine.map, drain_map hf]
  cases drain _ m.deferred m.values with
  | ok n => rfl
  | error failure => rfl

/-- A group is drained down to the same marker. -/
theorem drainGroup_map (hf : Faithful f) (m : Machine α) :
    (m.map f).drainGroup = m.drainGroup.map f := drain_map hf _ _ _

/-- So the end of a group removes that marker, or finds none, whatever the
values are. -/
theorem closeGroup_map (hf : Faithful f) (m : Machine α) :
    (m.map f).closeGroup = m.closeGroup.map f := by
  unfold closeGroup
  rw [drainGroup_map hf]
  match m.drainGroup with
  | .ok ⟨_ :: _, _⟩ => rfl
  | .ok ⟨[], _⟩ => rfl
  | .error _ => rfl

/-- A token does the same with a number mapped as the values are. -/
theorem feed_map (hf : Faithful f) (m : Machine α) (t : Token α) :
    (m.map f).feed (t.map f) = (m.feed t).map f := by
  cases t with
  | number value => rfl
  | operator o => exact defer_map hf o m
  | opening => rfl
  | closing => exact closeGroup_map hf m

/-- The end has the same fault, or the map of the value. -/
theorem finish_map (hf : Faithful f) (m : Machine α) :
    (m.map f).finish = m.finish.map f := by
  unfold finish
  rw [drainGroup_map hf]
  match m.drainGroup with
  | .ok ⟨_ :: _, _⟩ => rfl
  | .ok ⟨[], [_]⟩ => rfl
  | .ok ⟨[], []⟩ => rfl
  | .ok ⟨[], _ :: _ :: _⟩ => rfl
  | .error _ => rfl

-- ===================================================================== a run

/-- Tokens come to the same over mapped values, be it a fault or a value. -/
theorem outcome_map (hf : Faithful f) (m : Machine α) (ts : List (Token α)) :
    (m.map f).outcome (ts.map (Token.map f)) = (m.outcome ts).map f := by
  induction ts generalizing m with
  | nil => exact finish_map hf m
  | cons t ts ih =>
      have hmap := feed_map hf m t
      cases hfeed : m.feed t with
      | ok n =>
          rw [hfeed] at hmap
          rw [List.map_cons, outcome_cons_of_ok hmap, outcome_cons_of_ok hfeed]
          exact ih n
      | error failure =>
          rw [hfeed] at hmap
          rw [List.map_cons, outcome_cons_of_error hmap, outcome_cons_of_error hfeed]
          rfl

/-- Runs that go on after a fault keep the same two stacks but for the map. -/
theorem persist_map (hf : Faithful f) (m : Machine α) (ts : List (Token α)) :
    (m.map f).persist (ts.map (Token.map f)) = (m.persist ts).map f := by
  induction ts generalizing m with
  | nil => rfl
  | cons t ts ih =>
      show ((m.map f).feed (t.map f)).machine.persist _ = ((m.feed t).machine.persist ts).map f
      rw [feed_map hf, Step.machine_map, ih]

/-- Such runs agree step by step, failures included. -/
theorem steps_map (hf : Faithful f) (m : Machine α) (ts : List (Token α)) :
    (m.map f).steps (ts.map (Token.map f)) = (m.steps ts).map (Step.map f) := by
  induction ts generalizing m with
  | nil => rfl
  | cons t ts ih =>
      rw [List.map_cons, steps, steps, List.map_cons, feed_map hf, Step.machine_map, ih]

end Machine

end Calculator
