/-
The machine that evaluates an expression while reading it.

`values` holds the values that no operator has used yet. `deferred` holds the
operators that are still waiting for their right operand to be complete, and
a marker for every group that is open. Both are lists with the top in front.

- A number goes on the values.
- An opening parenthesis puts a marker on the deferred stack.
- An operator first applies the deferred operators above the last marker that
  bind at least as tightly as itself, then waits there. That equal ones are
  applied is what makes operators of one precedence group from the left.
- A closing parenthesis applies everything above the last marker and removes
  the marker.
- The end applies everything; no marker may be left, and exactly one value.

The three loops are one, `drain`, which differs only in which operators it
applies. An operator is taken off the stack before its two values, so if there
are fewer it is gone and the values stay as they were. A token that fails in
the middle of a drain leaves behind what the drain had done by then, so a
failure carries the machine it leaves, and the caller may go on with it.

Nothing here looks at a value, so the machine is defined for every type with
the four operations.
-/
import Calculator.Token

namespace Calculator

/-- What waits on the stack of deferred work. -/
inductive Deferred where
  /-- The marker of an open group. -/
  | group
  | operator (operator : Operator)
  deriving DecidableEq, Repr

/-- The two stacks, the top of each in front. -/
structure Machine (α : Type) where
  deferred : List Deferred
  values : List α
  deriving DecidableEq, Repr

/-- A step that failed: why, and the machine it left. -/
structure Failure (α : Type) where
  fault : Fault
  left : Machine α
  deriving DecidableEq, Repr

/-- What a step comes to. -/
abbrev Step (α : Type) := Except (Failure α) (Machine α)

/-- The machine after a step, whether or not the step failed. -/
def Step.machine {α : Type} : Step α → Machine α
  | .ok m => m
  | .error failure => failure.left

namespace Machine

variable {α : Type}

/-- The machine before anything is read. -/
def empty : Machine α := ⟨[], []⟩

variable [Arithmetic α]

-- ================================================================== draining

/-- Applies deferred operators from the top on, as far as they satisfy `due`;
a marker or the end of the stack stops it too. -/
def drain (due : Operator → Bool) : List Deferred → List α → Step α
  | .operator o :: rest, values =>
    if due o then
      match values with
      | right :: left :: below => drain due rest (o.apply left right :: below)
      | _ => .error ⟨.missingOperand o, ⟨rest, values⟩⟩
    else .ok ⟨.operator o :: rest, values⟩
  | .group :: rest, values => .ok ⟨.group :: rest, values⟩
  | [], values => .ok ⟨[], values⟩

@[simp] theorem drain_nil (due : Operator → Bool) (values : List α) :
    drain due [] values = .ok ⟨[], values⟩ := by
  simp [drain]

@[simp] theorem drain_group (due : Operator → Bool) (rest : List Deferred) (values : List α) :
    drain due (.group :: rest) values = .ok ⟨.group :: rest, values⟩ := by
  simp [drain]

/-- A drain stops at an operator that is not due. -/
theorem drain_of_not_due {due : Operator → Bool} {o : Operator} (h : due o = false)
    (rest : List Deferred) (values : List α) :
    drain due (.operator o :: rest) values = .ok ⟨.operator o :: rest, values⟩ := by
  simp [drain, h]

theorem drain_of_due {due : Operator → Bool} {o : Operator} (h : due o = true)
    (rest : List Deferred) (right left : α) (below : List α) :
    drain due (.operator o :: rest) (right :: left :: below)
      = drain due rest (o.apply left right :: below) := by
  simp [drain, h]

/-- An operator that is due and finds fewer than two values is lost, and
nothing else is. -/
theorem drain_of_few {due : Operator → Bool} {o : Operator} (h : due o = true)
    (rest : List Deferred) {values : List α} (few : values.length < 2) :
    drain due (.operator o :: rest) values = .error ⟨.missingOperand o, ⟨rest, values⟩⟩ := by
  match values, few with
  | [], _ => simp [drain, h]
  | [_], _ => simp [drain, h]

/-- Applies every operator above the last marker. -/
def drainGroup (m : Machine α) : Step α := drain (fun _ => true) m.deferred m.values

-- =================================================================== feeding

/-- Takes an operator: those that bind at least as tightly go first. -/
def defer (o : Operator) (m : Machine α) : Step α :=
  match drain (fun waiting => o.precedence ≤ waiting.precedence) m.deferred m.values with
  | .ok ⟨deferred, values⟩ => .ok ⟨.operator o :: deferred, values⟩
  | .error failure => .error failure

/-- Closes the last open group. -/
def closeGroup (m : Machine α) : Step α :=
  match m.drainGroup with
  | .ok ⟨_ :: rest, values⟩ => .ok ⟨rest, values⟩
  | .ok ⟨[], values⟩ => .error ⟨.unopenedGroup, ⟨[], values⟩⟩
  | .error failure => .error failure

def feed (m : Machine α) : Token α → Step α
  | .number value => .ok { m with values := value :: m.values }
  | .operator o => m.defer o
  | .opening => .ok { m with deferred := .group :: m.deferred }
  | .closing => m.closeGroup

/-- Takes what a word turned out to be. A word that is no token fails with
its fault and leaves the machine as it is. -/
def offer (m : Machine α) : Except Fault (Token α) → Step α
  | .ok token => m.feed token
  | .error fault => .error ⟨fault, m⟩

-- ===================================================================== a run

/-- Takes one item after the other, up to the first that fails. -/
def run (m : Machine α) : List (Except Fault (Token α)) → Step α
  | [] => .ok m
  | item :: items =>
    match m.offer item with
    | .ok next => next.run items
    | .error failure => .error failure

@[simp] theorem run_nil (m : Machine α) : m.run [] = .ok m := rfl

/-- A run goes on after an item that goes through. -/
theorem run_cons_of_ok {m n : Machine α} {item : Except Fault (Token α)}
    (h : m.offer item = .ok n) (items : List (Except Fault (Token α))) :
    m.run (item :: items) = n.run items := by
  simp [run, h]

theorem run_cons_of_error {m : Machine α} {failure : Failure α} {item : Except Fault (Token α)}
    (h : m.offer item = .error failure) (items : List (Except Fault (Token α))) :
    m.run (item :: items) = .error failure := by
  simp [run, h]

/-- A run over two lists is a run over the second from where the first one
ended. -/
theorem run_append_of_ok {m n : Machine α} {first : List (Except Fault (Token α))}
    (h : m.run first = .ok n) (second : List (Except Fault (Token α))) :
    m.run (first ++ second) = n.run second := by
  induction first generalizing m with
  | nil => cases h; rfl
  | cons item items ih =>
    cases ho : m.offer item with
    | ok next =>
      rw [run_cons_of_ok ho] at h
      rw [List.cons_append, run_cons_of_ok ho]
      exact ih h
    | error failure => simp [run_cons_of_error ho] at h

/-- A run that fails fails the same way whatever would have come after. -/
theorem run_append_of_error {m : Machine α} {failure : Failure α}
    {first : List (Except Fault (Token α))} (h : m.run first = .error failure)
    (second : List (Except Fault (Token α))) :
    m.run (first ++ second) = .error failure := by
  induction first generalizing m with
  | nil => cases h
  | cons item items ih =>
    cases ho : m.offer item with
    | ok next =>
      rw [run_cons_of_ok ho] at h
      rw [List.cons_append, run_cons_of_ok ho]
      exact ih h
    | error _ =>
      rw [run_cons_of_error ho] at h
      rw [List.cons_append, run_cons_of_error ho, h]

/-- The steps of that run, each beside its item; one that fails is the
last. -/
def trace (m : Machine α) :
    List (Except Fault (Token α)) → List (Except Fault (Token α) × Step α)
  | [] => []
  | item :: items =>
    match m.offer item with
    | .ok next => (item, .ok next) :: next.trace items
    | .error failure => [(item, .error failure)]

/-- The machine that tokens leave to a caller who goes on whatever fails. -/
def persist (m : Machine α) (tokens : List (Token α)) : Machine α :=
  tokens.foldl (fun m t => (m.feed t).machine) m

/-- The steps of that caller, one for each token. -/
def steps (m : Machine α) : List (Token α) → List (Step α)
  | [] => []
  | t :: ts => m.feed t :: (m.feed t).machine.steps ts

/-- Those of the tokens that go through when the caller goes on. -/
def accepted (m : Machine α) : List (Token α) → List (Token α)
  | [] => []
  | t :: ts =>
    match m.feed t with
    | .ok n => t :: n.accepted ts
    | .error failure => failure.left.accepted ts

/-- Ends the expression: what is still deferred is applied, and the one value
that remains is the result. -/
def finish (m : Machine α) : Except Fault α :=
  match m.drainGroup with
  | .error failure => .error failure.fault
  | .ok ⟨_ :: _, _⟩ => .error .unclosedGroup
  | .ok ⟨[], [value]⟩ => .ok value
  | .ok ⟨[], _⟩ => .error .notOneValue

end Machine

end Calculator
