/-
What the two stacks owe to the tokens that were read.

`Ledger` keeps the books: a marker for each group that is open, a value for
each number less one for each operator that was applied, and no operator on
the stack that was not read. Once an operator was applied there is a value,
since the last application left one.

Applying operators in a row keeps the books by itself (`Ledger.applied`), also
when the row is the part of a drain that went well before it failed. So the
ledger speaks about failing steps as well.
-/
import Calculator.Proofs.Machine.Run
import Calculator.Proofs.Token.Count

namespace Calculator

open Token

variable {α : Type}

def waiting : List Deferred → Nat
  | [] => 0
  | .group :: rest => waiting rest
  | .operator _ :: rest => waiting rest + 1

/-- Operators on top are waiting. -/
theorem waiting_operators (taken : List Operator) (below : List Deferred) :
    waiting (taken.map .operator ++ below) = taken.length + waiting below := by
  induction taken with
  | nil => simp
  | cons o taken ih =>
      simp only [List.map_cons, List.cons_append, waiting, ih, List.length_cons]
      omega

theorem count_group_operators (taken : List Operator) (below : List Deferred) :
    (taken.map Deferred.operator ++ below).count .group = below.count .group := by
  induction taken with
  | nil => rfl
  | cons o taken ih => simpa using ih

namespace Machine

/-- The books of a machine that has read these tokens. -/
structure Ledger (read : List (Token α)) (m : Machine α) : Prop where
  nested : Nested read
  groups : m.deferred.count .group + count .closing read = count .opening read
  values : m.values.length + count .operator read = count .number read + waiting m.deferred
  used : waiting m.deferred < count .operator read → m.values ≠ []
  source : ∀ o, .operator o ∈ m.deferred → .operator o ∈ read

/-- At the beginning the books are empty. -/
theorem Ledger.empty : Ledger [] (empty : Machine α) where
  nested := nested_nil
  groups := rfl
  values := rfl
  used := by simp
  source := by
    intro o h
    cases h

/-- With no marker left, the parentheses are balanced. -/
theorem Ledger.balanced {read : List (Token α)} {m : Machine α} {taken : List Operator}
    (h : Ledger read m) (hstack : m.deferred = taken.map .operator) : Balanced read := by
  have hgroups := h.groups
  rw [hstack, ← List.append_nil (taken.map _), count_group_operators] at hgroups
  simp only [List.count_nil] at hgroups
  exact ⟨h.nested, by omega⟩

/-- One token more and what it puts on the stacks or takes from them. -/
theorem Ledger.entered {read : List (Token α)} {m n : Machine α} {t : Token α}
    (h : Ledger read m)
    (hgroups : n.deferred.count .group + count .closing [t]
      = m.deferred.count .group + count .opening [t])
    (hwaiting : waiting n.deferred = waiting m.deferred + count .operator [t])
    (hvalues : n.values.length = m.values.length + count .number [t])
    (hsource : ∀ o, .operator o ∈ n.deferred → .operator o ∈ m.deferred ∨ .operator o = t) :
    Ledger (read ++ [t]) n := by
  have hopen := h.groups
  have hread := h.values
  refine ⟨h.nested.snoc ?_, ?_, ?_, ?_, ?_⟩
  · rw [count_append, count_append]
    omega
  · rw [count_append, count_append]
    omega
  · rw [count_append, count_append]
    omega
  · intro hlt
    rw [count_append] at hlt
    have hpos := List.length_pos_iff.2 (h.used (by omega))
    exact List.length_pos_iff.1 (by omega)
  · intro o ho
    rcases hsource o ho with ho | rfl
    · exact List.mem_append_left _ (h.source o ho)
    · exact List.mem_append_right _ (List.mem_singleton_self _)

variable [Arithmetic α]

/-- Operators that are applied change hands within the books. -/
theorem Ledger.applied {read : List (Token α)} {m : Machine α} {taken : List Operator}
    {below : List Deferred} {left : List α} (h : Ledger read m)
    (hstack : m.deferred = taken.map .operator ++ below)
    (hrun : Postfix.run m.values (taken.map .apply) = .ok left) :
    Ledger read ⟨below, left⟩ := by
  obtain ⟨hnested, hgroups, hvalues, hused, hsource⟩ := h
  have hlength := Postfix.length_of_run_operators hrun
  rw [hstack, count_group_operators] at hgroups
  rw [hstack, waiting_operators] at hvalues hused
  refine ⟨hnested, hgroups, ?_, ?_, ?_⟩
  · show left.length + count .operator read = count .number read + waiting below
    omega
  · intro hlt
    by_cases hne : taken = []
    · subst hne
      cases hrun
      exact hused (by simpa using hlt)
    · exact Postfix.ne_nil_of_run_operators hne hrun
  · intro o ho
    apply hsource
    rw [hstack]
    exact List.mem_append_right _ ho

/-- A token that goes through is entered in the books. -/
theorem Ledger.fed {read : List (Token α)} {m n : Machine α} {t : Token α} (h : Ledger read m)
    (hfed : Fed m t (.ok n)) : Ledger (read ++ [t]) n := by
  cases hfed with
  | number value => exact h.entered rfl rfl rfl fun o ho => Or.inl ho
  | opening =>
      refine h.entered (by simp) rfl rfl fun o ho => ?_
      rcases List.mem_cons.1 ho with hmarker | ho
      · cases hmarker
      · exact Or.inl ho
  | operator hstack _ _ hrun =>
      refine (h.applied hstack hrun).entered (by simp) rfl rfl fun o ho => ?_
      rcases List.mem_cons.1 ho with hnew | ho
      · cases hnew
        exact Or.inr rfl
      · exact Or.inl ho
  | closing hstack hrun =>
      refine (h.applied hstack hrun).entered (by simp) rfl rfl fun o ho => ?_
      exact Or.inl (List.mem_cons_of_mem _ ho)

theorem Ledger.run {read ts : List (Token α)} {m n : Machine α} (h : Ledger read m)
    (hrun : m.run (ts.map .ok) = .ok n) : Ledger (read ++ ts) n :=
  run_preserves Ledger.fed h hrun

/-- So the books are kept after every run from the beginning. -/
theorem ledger_of_run {ts : List (Token α)} {m : Machine α}
    (h : Machine.empty.run (ts.map .ok) = .ok m) : Ledger ts m := Ledger.empty.run h

-- =========================================================== what they tell

/-- An operator that finds too few values was read, and among the tokens read
the numbers are no more than the operators. -/
theorem Ledger.short {read : List (Token α)} {m : Machine α} {taken : List Operator}
    {o : Operator} {rest : List Deferred} {left : List α} (h : Ledger read m)
    (hstack : m.deferred = taken.map .operator ++ .operator o :: rest)
    (hrun : Postfix.run m.values (taken.map .apply) = .ok left) (hfew : left.length < 2) :
    .operator o ∈ read ∧ count .number read ≤ count .operator read := by
  obtain ⟨-, -, hvalues, -, hsource⟩ := h.applied hstack hrun
  simp only [waiting] at hvalues
  exact ⟨hsource o (by simp), by omega⟩

/-- With every operator applied, the values left are the numbers less the
operators. -/
theorem Ledger.length_left {read : List (Token α)} {m : Machine α} {taken : List Operator}
    {left : List α} (h : Ledger read m) (hstack : m.deferred = taken.map .operator)
    (hrun : Postfix.run m.values (taken.map .apply) = .ok left) :
    left.length + count .operator read = count .number read
      ∧ (0 < count .operator read → left ≠ []) := by
  rw [← List.append_nil (taken.map _)] at hstack
  obtain ⟨-, -, hvalues, hused, -⟩ := h.applied hstack hrun
  exact ⟨hvalues, hused⟩

/-- Tokens that have a value are balanced, with one number more than
operators. -/
theorem balanced_of_value {ts : List (Token α)} {m : Machine α} {x : α}
    (hrun : Machine.empty.run (ts.map .ok) = .ok m) (hfinish : m.finish = .ok x) :
    Balanced ts ∧ count .number ts = count .operator ts + 1 := by
  have hledger := ledger_of_run hrun
  cases Finished.of_eq hfinish with
  | value hstack hleft =>
      obtain ⟨hcount, -⟩ := hledger.length_left hstack hleft
      rw [List.length_singleton] at hcount
      exact ⟨hledger.balanced hstack, by omega⟩

end Machine

end Calculator
