/-
A group is worth its value.

No loop goes past a marker on its own, and an application needs no more values
than it finds. So what a machine does from its beginning it also does above a
marker and above older values, step by step (`Fed.inside`) and over a whole run
(`run_inside`).

Where the end of the expression finds the bottom of the deferred stack, the
end of a group finds the marker, and the one value that the first asks for is
what the second leaves (`feed_closing_inside`). The tokens in the group need
be no sentence for this.
-/
import Calculator.Binary64.Bits
import Calculator.Proofs.Machine.Run

namespace Calculator

variable {α : Type}

/-- A drain that would stop at the bottom stops at a marker. -/
theorem Stops.above_group {due : Operator → Bool} {stack : List Deferred} (h : Stops due stack)
    (rest : List Deferred) : Stops due (stack ++ .group :: rest) := by
  match stack with
  | [] => exact stops_group due rest
  | .group :: below => exact stops_group due _
  | .operator o :: below =>
      intro p rest' hs
      cases hs
      exact h o below rfl

/-- Values below those that a program uses stay where they are. -/
theorem Postfix.run_above [Arithmetic α] {values left : List α} {program : List (Instruction α)}
    (h : run values program = .ok left) (older : List α) :
    run (values ++ older) program = .ok (left ++ older) := by
  induction program generalizing values with
  | nil =>
      cases h
      rfl
  | cons instruction program ih =>
      match instruction with
      | .push value =>
          rw [run] at h ⊢
          exact ih h
      | .apply o =>
          obtain ⟨right, under, below, rfl, hrest⟩ := exists_of_run_apply h
          exact ih hrest

namespace Machine

/-- The machine at work in a group that was opened on `base`. -/
def inside (m base : Machine α) : Machine α :=
  ⟨m.deferred ++ .group :: base.deferred, m.values ++ base.values⟩

variable [Arithmetic α]

-- =========================================================== in the group

theorem feed_opening (base : Machine α) : base.feed .opening = .ok (empty.inside base) := rfl

/-- A token that goes through does the same in a group. -/
theorem Fed.inside {m n : Machine α} {t : Token α} (h : Fed m t (.ok n)) (base : Machine α) :
    Fed (m.inside base) t (.ok (n.inside base)) := by
  cases h with
  | number value => exact Fed.number value
  | opening => exact Fed.opening
  | operator hstack hdue hstop hrun =>
      refine Fed.operator ?_ hdue (hstop.above_group base.deferred)
        (Postfix.run_above hrun base.values)
      simp [Machine.inside, hstack]
  | closing hstack hrun =>
      refine Fed.closing ?_ (Postfix.run_above hrun base.values)
      simp [Machine.inside, hstack]

/-- A run that goes through does so in a group. -/
theorem run_inside {m n : Machine α} {ts : List (Token α)} (h : m.run (ts.map .ok) = .ok n)
    (base : Machine α) : (m.inside base).run (ts.map .ok) = .ok (n.inside base) := by
  induction ts generalizing m with
  | nil =>
      cases h
      rfl
  | cons t ts ih =>
      obtain ⟨next, hfeed, hrest⟩ := exists_feed_of_run h
      have hinside := ((Fed.of_eq hfeed).inside base).eq
      rw [run_tokens_cons_of_ok hinside]
      exact ih hrest

/-- A group closes where the expression in it could end, and leaves the value
that it would have had. -/
theorem feed_closing_inside {m : Machine α} {x : α} (h : m.finish = .ok x) (base : Machine α) :
    (m.inside base).feed .closing = .ok ⟨base.deferred, x :: base.values⟩ := by
  cases Finished.of_eq h with
  | @value taken _ hstack hrun =>
      refine (Fed.closing ?_ (Postfix.run_above hrun base.values)).eq
      simp [Machine.inside, hstack]

-- =============================================================== the group

/-- Reading a group pushes its value. -/
theorem run_group {ts : List (Token α)} {x : α} (h : Machine.empty.outcome ts = .ok x)
    (base : Machine α) :
    base.run ((.opening :: (ts ++ [.closing])).map .ok)
      = .ok ⟨base.deferred, x :: base.values⟩ := by
  obtain ⟨n, hrun, hfinish⟩ := outcome_eq_ok_iff.1 h
  have hend : (n.inside base).run ([Token.closing].map .ok)
      = .ok ⟨base.deferred, x :: base.values⟩ := by
    rw [run_tokens_cons_of_ok (feed_closing_inside hfinish base)]
    rfl
  rw [run_tokens_cons_of_ok (feed_opening base), List.map_append,
    run_append_of_ok (run_inside hrun base)]
  exact hend

/-- What follows a group cannot tell it from its value. -/
theorem outcome_group {ts : List (Token α)} {x : α} (h : Machine.empty.outcome ts = .ok x)
    (base : Machine α) (back : List (Token α)) :
    base.outcome (.opening :: (ts ++ .closing :: back)) = base.outcome (.number x :: back) := by
  have hnumber : base.feed (.number x) = .ok ⟨base.deferred, x :: base.values⟩ := rfl
  calc base.outcome (.opening :: (ts ++ .closing :: back))
      = base.outcome ((.opening :: (ts ++ [.closing])) ++ back) := by simp
    _ = (Machine.mk base.deferred (x :: base.values)).outcome back :=
        outcome_append_of_ok (run_group h base) back
    _ = base.outcome (.number x :: back) := (outcome_cons_of_ok hnumber back).symm

/-- A group whose tokens have a value does to every machine what the value
does: it goes through and leaves the same two stacks. So tokens come to the
same, value or fault, with the group and with the value in its place. -/
theorem group_interchangeable {ts : List (Token α)} {x : α}
    (h : Machine.empty.outcome ts = .ok x) :
    (∀ m : Machine α,
      m.run ((.opening :: (ts ++ [.closing])).map .ok) = m.feed (.number x)
        ∧ m.feed (.number x) = .ok ⟨m.deferred, x :: m.values⟩)
    ∧ ∀ front back : List (Token α),
      Machine.empty.outcome (front ++ .opening :: (ts ++ .closing :: back))
        = Machine.empty.outcome (front ++ .number x :: back) := by
  refine ⟨fun m => ⟨run_group h m, rfl⟩, fun front back => ?_⟩
  cases hfront : Machine.empty.run (front.map .ok) with
  | error failure => rw [outcome_append_of_error hfront, outcome_append_of_error hfront]
  | ok m =>
      rw [outcome_append_of_ok hfront, outcome_append_of_ok hfront]
      exact outcome_group h m back

/-- The group `( 3 5 + )` is worth 8, though its tokens are no sentence. -/
theorem group_of_operands_side_by_side :
    let three := Binary64.ofBits 0x4008000000000000#64
    let five := Binary64.ofBits 0x4014000000000000#64
    let eight := Binary64.ofBits 0x4020000000000000#64
    let ts : List (Token Binary64) := [.number three, .number five, .operator .add]
    Machine.empty.outcome ts = .ok eight
      ∧ ∀ front back, Machine.empty.outcome (front ++ .opening :: (ts ++ .closing :: back))
          = Machine.empty.outcome (front ++ .number eight :: back) := by
  intro three five eight ts
  have hvalue : Machine.empty.outcome ts = .ok eight := by decide +kernel
  exact ⟨hvalue, (group_interchangeable hvalue).2⟩

end Machine

end Calculator
