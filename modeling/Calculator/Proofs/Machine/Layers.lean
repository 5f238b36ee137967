/-
The deferred stack grows in layers.

The markers cut the deferred stack into layers, and in a layer every operator
binds tighter than the one it lies on. `Ascending` says so from the top down,
by comparing an operator with the precedence on top of the rest, which counts
as zero at a marker and at the bottom. Since precedences are 1 or 2, three
entries for each marker and two more are all that the stack can hold.

A step takes entries off the top and leaves what is below them, also when it
fails in the middle of a drain. So a failing step has nothing to restore: the
rest of an ascending stack is ascending.
-/
import Calculator.Binary64.Bits
import Calculator.Proofs.Machine.Ledger

namespace Calculator

open Token

variable {α : Type}

-- ============================================================== precedence

/-- The precedence of the operator on top, and zero where there is none. -/
def topPrecedence : List Deferred → Nat
  | .operator o :: _ => o.precedence
  | _ => 0

theorem Operator.precedence_pos (o : Operator) : 0 < o.precedence := by
  cases o <;> decide

theorem Operator.precedence_le_two (o : Operator) : o.precedence ≤ 2 := by
  cases o <;> decide

theorem topPrecedence_le_two (stack : List Deferred) : topPrecedence stack ≤ 2 := by
  match stack with
  | [] => exact Nat.zero_le 2
  | .group :: _ => exact Nat.zero_le 2
  | .operator o :: _ => exact o.precedence_le_two

/-- What stops an operator's drain binds looser than the operator. -/
theorem Stops.topPrecedence_lt {o : Operator} {stack : List Deferred}
    (h : Stops (Token.operator (α := α) o).forces stack) : topPrecedence stack < o.precedence := by
  match stack with
  | [] => exact o.precedence_pos
  | .group :: _ => exact o.precedence_pos
  | .operator p :: rest =>
      have hp := h p rest rfl
      simp only [Token.forces, decide_eq_false_iff_not] at hp
      exact Nat.lt_of_not_le hp

-- =========================================================== the invariant

/-- Every operator binds tighter than the operator right below it. -/
def Ascending : List Deferred → Prop
  | [] => True
  | .group :: rest => Ascending rest
  | .operator o :: rest => topPrecedence rest < o.precedence ∧ Ascending rest

/-- What is left of an ascending stack ascends. -/
theorem Ascending.tail {entry : Deferred} {rest : List Deferred} (h : Ascending (entry :: rest)) :
    Ascending rest := by
  cases entry with
  | group => exact h
  | operator o => exact h.2

/-- What is left when entries are taken off the top is ascending. -/
theorem Ascending.below {above below : List Deferred} (h : Ascending (above ++ below)) :
    Ascending below := by
  induction above with
  | nil => exact h
  | cons entry above ih => exact ih h.tail

/-- The operators of a layer are no more than the precedence on top. -/
theorem Ascending.layer_le {layer : List Operator} {below : List Deferred}
    (h : Ascending (layer.map .operator ++ below)) :
    layer.length ≤ topPrecedence (layer.map .operator ++ below) := by
  induction layer with
  | nil => exact Nat.zero_le _
  | cons o layer ih =>
      have hlt : topPrecedence (layer.map .operator ++ below) < o.precedence := h.1
      have hle := ih h.2
      show layer.length + 1 ≤ o.precedence
      omega

/-- Under each marker, and on top, there is room for two operators. -/
theorem Ascending.length_le {stack : List Deferred} (h : Ascending stack) :
    stack.length ≤ 3 * stack.count .group + topPrecedence stack := by
  induction stack with
  | nil => exact Nat.le_refl 0
  | cons entry stack ih =>
      have hle := ih h.tail
      cases entry with
      | group =>
          have htwo := topPrecedence_le_two stack
          rw [List.length_cons, List.count_cons_self]
          omega
      | operator o =>
          obtain ⟨hlt, -⟩ := h
          rw [List.length_cons, List.count_cons_of_ne (by simp)]
          show stack.length + 1 ≤ _ + o.precedence
          omega

namespace Machine

variable [Arithmetic α]

-- ================================================================= one step

/-- Every step leaves an ascending stack, failed or not. -/
theorem Fed.ascending {m : Machine α} {t : Token α} {step : Step α} (h : Fed m t step)
    (hm : Ascending m.deferred) : Ascending step.machine.deferred := by
  cases h with
  | number value => exact hm
  | opening => exact hm
  | operator hstack hdue hstop hrun =>
      rw [hstack] at hm
      exact ⟨hstop.topPrecedence_lt, hm.below⟩
  | closing hstack hrun =>
      rw [hstack] at hm
      exact hm.below.tail
  | unopened hstack hrun => exact True.intro
  | short hstack hdue hrun hfew =>
      rw [hstack] at hm
      exact hm.below.tail

/-- A token that goes through opens a group or closes one as it says. -/
theorem Fed.groups_of_ok {m n : Machine α} {t : Token α} (h : Fed m t (.ok n)) :
    n.deferred.count .group + count .closing [t]
      = m.deferred.count .group + count .opening [t] := by
  cases h with
  | number value => rfl
  | opening => simp
  | operator hstack hdue hstop hrun =>
      rw [hstack, count_group_operators]
      simp
  | closing hstack hrun =>
      rw [hstack, count_group_operators]
      simp

/-- A token that fails leaves all markers where they are. -/
theorem Fed.groups_of_error {m : Machine α} {t : Token α} {failure : Failure α}
    (h : Fed m t (.error failure)) :
    failure.left.deferred.count .group = m.deferred.count .group := by
  cases h with
  | unopened hstack hrun =>
      rw [hstack, ← List.append_nil (List.map _ _), count_group_operators]
  | short hstack hdue hrun hfew =>
      rw [hstack, count_group_operators]
      simp

-- ============================================================ all the steps

/-- Also over failures, a run leaves the stack ascending. -/
theorem ascending_persist {m : Machine α} (h : Ascending m.deferred) (ts : List (Token α)) :
    Ascending (m.persist ts).deferred := by
  induction ts generalizing m with
  | nil => exact h
  | cons t ts ih => exact ih ((m.fed t).ascending h)

/-- Of the parentheses that were accepted, the markers are those not closed
yet. -/
theorem groups_persist (m : Machine α) (ts : List (Token α)) :
    (m.persist ts).deferred.count .group + count .closing (m.accepted ts)
      = m.deferred.count .group + count .opening (m.accepted ts) := by
  induction ts generalizing m with
  | nil => rfl
  | cons t ts ih =>
      cases hfeed : m.feed t with
      | ok n =>
          have hpersist : m.persist (t :: ts) = n.persist ts := by
            simp [persist, hfeed, Step.machine]
          have haccepted : m.accepted (t :: ts) = [t] ++ n.accepted ts := by
            simp [accepted, hfeed]
          have hstep := (Fed.of_eq hfeed).groups_of_ok
          have hrest := ih n
          rw [hpersist, haccepted, count_append, count_append]
          omega
      | error failure =>
          have hpersist : m.persist (t :: ts) = failure.left.persist ts := by
            simp [persist, hfeed, Step.machine]
          have haccepted : m.accepted (t :: ts) = failure.left.accepted ts := by
            simp [accepted, hfeed]
          -- a token that fails is not accepted, and takes no marker
          have hstep := (Fed.of_eq hfeed).groups_of_error
          rw [hpersist, haccepted, ih, hstep]

/-- How operators lie on a deferred stack: of two neighbours the upper one
binds tighter, hence no more than two lie together, and the stack is bounded
by its markers. -/
structure Layered (stack : List Deferred) : Prop where
  tighter : ∀ above o p below, stack = above ++ .operator o :: .operator p :: below →
    p.precedence < o.precedence
  layer_le : ∀ above (layer : List Operator) below,
    stack = above ++ (layer.map .operator ++ below) → layer.length ≤ 2
  length_le : stack.length ≤ 3 * stack.count .group + 2

/-- An ascending stack is one of layers of at most two operators each. -/
theorem layered_of_ascending {stack : List Deferred} (h : Ascending stack) : Layered stack := by
  refine ⟨?_, ?_, ?_⟩
  · intro above o p below hstack
    subst hstack
    exact h.below.1
  · intro above layer below hstack
    subst hstack
    exact Nat.le_trans h.below.layer_le (topPrecedence_le_two _)
  · have hlength := h.length_le
    have htwo := topPrecedence_le_two stack
    omega

/-- Whatever tokens are fed, and however many of them fail on the way, the
deferred stack is layered after each, and its markers are the opening
parenthesis that went through less the closing ones. -/
theorem persist_layered (ts : List (Token α)) :
    Layered (Machine.empty.persist ts).deferred
      ∧ (Machine.empty.persist ts).deferred.count .group
          + count .closing (Machine.empty.accepted ts)
        = count .opening (Machine.empty.accepted ts) := by
  constructor
  · have hempty : Ascending (Machine.empty : Machine α).deferred := True.intro
    exact layered_of_ascending (ascending_persist hempty ts)
  · have hgroups := groups_persist Machine.empty ts
    rw [hgroups]
    exact Nat.zero_add _

/-- After `) 1 + 1 * ( 1 - 1 /`, whose first token fails, the stack is as high
as one marker allows. -/
theorem persist_layered_after_failure :
    let one := Binary64.ofBits 0x3ff0000000000000#64
    let ts : List (Token Binary64) := [.closing, .number one, .operator .add, .number one,
      .operator .mul, .opening, .number one, .operator .sub, .number one, .operator .div]
    (Machine.empty.persist ts).deferred
        = [.operator .div] ++ .operator .sub :: .group :: [.operator .mul, .operator .add]
      ∧ Operator.sub.precedence < Operator.div.precedence
      ∧ (Machine.empty.persist ts).deferred.length = 3 * 1 + 2 := by
  intro one ts
  have hstack : (Machine.empty.persist ts).deferred
      = [] ++ .operator .div :: .operator .sub :: [.group, .operator .mul, .operator .add] := by
    decide +kernel
  exact ⟨hstack, (persist_layered ts).1.tighter _ _ _ _ hstack, by rw [hstack]; rfl⟩

end Machine

end Calculator
