/-
One application at a time.

To apply is to take the operator on top of the deferred stack and the two
values on top of the others, and to put the result back. As an operation by
itself, it also has to answer where no operator is on top. On an empty deferred
stack it changes nothing; a marker it takes off and reports its group as
unclosed.

`drain` does all the applications that a token forces in one recursion. Here
are the three loops apart, each with a condition of its own and a call of the
operation for each round. None of them calls it without an operator on top. So
that this can be said, the two answers of the operation are a parameter,
`Guards`. That the loops end rests on it too: each round takes one operator
(`length_lt_of_applyTop`), and a call on an empty stack would take nothing.
-/
import Calculator.Machine

namespace Calculator

/-- What the operation answers where no operator is on top. -/
structure Guards (α : Type) where
  /-- The deferred stack is empty. -/
  empty : List α → Step α
  /-- A marker is on top; below it the rest of the deferred stack. -/
  group : List Deferred → List α → Step α

/-- The answers of the operation by itself. -/
def Guards.standard {α : Type} : Guards α where
  empty values := .ok ⟨[], values⟩
  group rest values := .error ⟨.unclosedGroup, ⟨rest, values⟩⟩

namespace Machine

variable {α : Type} [Arithmetic α]

/-- The operator on top at work on the two values on top. An operator that
finds too few is gone. -/
def applyTop (guards : Guards α) (m : Machine α) : Step α :=
  match m.deferred, m.values with
  | [], values => guards.empty values
  | .group :: rest, values => guards.group rest values
  | .operator o :: rest, right :: left :: below => .ok ⟨rest, o.apply left right :: below⟩
  | .operator o :: rest, values => .error ⟨.missingOperand o, ⟨rest, values⟩⟩

/-- An operator that is applied leaves the deferred stack. -/
theorem length_lt_of_applyTop {guards : Guards α} {m n : Machine α} {o : Operator}
    {rest : List Deferred} (hm : m.deferred = .operator o :: rest)
    (h : m.applyTop guards = .ok n) : n.deferred.length < m.deferred.length := by
  obtain ⟨deferred, values⟩ := m
  subst hm
  match values with
  | _ :: _ :: _ =>
      cases h
      exact Nat.lt_succ_self _
  | [] => cases h
  | [_] => cases h

-- ================================================================= the loops

/-- Takes an operator: applies those that bind at least as tightly, one by
one. -/
def deferBy (guards : Guards α) (o : Operator) (m : Machine α) : Step α :=
  match hm : m.deferred with
  | .operator top :: _ =>
    if top.precedence < o.precedence then
      .ok { m with deferred := .operator o :: m.deferred }
    else
      match h : m.applyTop guards with
      | .ok n =>
        have := length_lt_of_applyTop hm h
        n.deferBy guards o
      | .error failure => .error failure
  | _ => .ok { m with deferred := .operator o :: m.deferred }
termination_by m.deferred.length

/-- Closes the last open group: applies one by one what lies above its
marker. -/
def closeGroupBy (guards : Guards α) (m : Machine α) : Step α :=
  match hm : m.deferred with
  | .group :: rest => .ok { m with deferred := rest }
  | .operator _ :: _ =>
    match h : m.applyTop guards with
    | .ok n =>
      have := length_lt_of_applyTop hm h
      n.closeGroupBy guards
    | .error failure => .error failure
  | [] => .error ⟨.unopenedGroup, m⟩
termination_by m.deferred.length

def feedBy (guards : Guards α) (m : Machine α) : Token α → Step α
  | .number value => .ok { m with values := value :: m.values }
  | .operator o => m.deferBy guards o
  | .opening => .ok { m with deferred := .group :: m.deferred }
  | .closing => m.closeGroupBy guards

/-- Ends the expression: applies one by one what is still deferred, and takes
the one value that remains. -/
def finishBy (guards : Guards α) (m : Machine α) : Except Fault α :=
  match hm : m.deferred with
  | .group :: _ => .error .unclosedGroup
  | .operator _ :: _ =>
    match h : m.applyTop guards with
    | .ok n =>
      have := length_lt_of_applyTop hm h
      n.finishBy guards
    | .error failure => .error failure.fault
  | [] =>
    match m.values with
    | [value] => .ok value
    | _ => .error .notOneValue
termination_by m.deferred.length

end Machine

end Calculator
