/-
Where a value comes from.

Trees are values, so the machine can be run on trees: start with each number
as a leaf, and an application makes a node. What it answers, `treeOf`, is the
record of its own applications. Taking the value of a tree is a faithful map,
and so is replacing its leaves. So a machine over numbers answers with the
value of that record, which is the same for all numbers but for its leaves.

Nothing is lost, doubled or moved (`Accounted`). The leaves of the trees on the
value stack, from the bottom up, are the numbers read so far in order, and the
operators inside them, with the deferred ones, are the operators read so far.
No grammar is assumed.
-/
import Calculator.Binary64.Bits
import Calculator.Proofs.Machine.Ledger
import Calculator.Proofs.Machine.Map
import Calculator.Tree

namespace Calculator

variable {α β : Type}

-- ================================================================= contents

/-- The numbers among tokens, in order. -/
def Token.numbers (ts : List (Token α)) : List α :=
  ts.filterMap fun
    | .number value => some value
    | _ => none

/-- The operators among tokens, in order. -/
def Token.operators (ts : List (Token α)) : List Operator :=
  ts.filterMap fun
    | .operator o => some o
    | _ => none

/-- The operators on a deferred stack, from the top down. -/
def pending (stack : List Deferred) : List Operator :=
  stack.filterMap fun
    | .group => none
    | .operator o => some o

theorem pending_append (taken : List Operator) (below : List Deferred) :
    pending (taken.map .operator ++ below) = taken ++ pending below := by
  simp [pending, List.filterMap_map]

-- ============================================================ trees as values

namespace Tree

/-- The value of a node is its operator at the values below. -/
theorem faithful_value [Arithmetic α] : Faithful (value : Tree α → α) := by
  intro o left right
  rw [apply_eq_node, value]

theorem faithful_map (f : α → β) : Faithful (map f : Tree α → Tree β) := by
  intro o left right
  rw [apply_eq_node, apply_eq_node, map]

/-- Applying operators to trees keeps the leaves of all the trees in order. -/
theorem leaves_of_run {values left : List (Tree α)} {taken : List Operator}
    (h : Postfix.run values (taken.map .apply) = .ok left) :
    left.reverse.flatMap leaves = values.reverse.flatMap leaves := by
  induction taken generalizing values with
  | nil =>
      cases h
      rfl
  | cons o taken ih =>
      obtain ⟨right, under, below, rfl, hrest⟩ := Postfix.exists_of_run_apply h
      rw [ih hrest, apply_eq_node]
      simp [leaves]

/-- Applying operators to trees puts them inside the trees. -/
theorem operators_of_run {values left : List (Tree α)} {taken : List Operator}
    (h : Postfix.run values (taken.map .apply) = .ok left) :
    (left.flatMap operators).Perm (values.flatMap operators ++ taken) := by
  induction taken generalizing values with
  | nil =>
      cases h
      simp
  | cons o taken ih =>
      obtain ⟨right, under, below, rfl, hrest⟩ := Postfix.exists_of_run_apply h
      refine (ih hrest).trans (List.perm_iff_count.2 fun p => ?_)
      simp only [apply_eq_node, List.flatMap_cons, operators, List.count_append, List.count_cons]
      omega

end Tree

namespace Machine

-- ============================================================== the invariant

/-- A machine over trees holds the numbers read so far as leaves, and the
operators inside its trees or deferred. -/
structure Accounted (read : List (Token α)) (m : Machine (Tree α)) : Prop where
  leaves : m.values.reverse.flatMap Tree.leaves = Token.numbers read
  operators : (m.values.flatMap Tree.operators ++ pending m.deferred).Perm (Token.operators read)

theorem Accounted.empty : Accounted [] (empty : Machine (Tree α)) := ⟨rfl, List.Perm.nil⟩

/-- Applying operators in a row moves them from the stack into the trees. -/
theorem Accounted.applied {read : List (Token α)} {m : Machine (Tree α)} {taken : List Operator}
    {below : List Deferred} {left : List (Tree α)} (h : Accounted read m)
    (hstack : m.deferred = taken.map .operator ++ below)
    (hrun : Postfix.run m.values (taken.map .apply) = .ok left) :
    Accounted read ⟨below, left⟩ := by
  obtain ⟨hleaves, hoperators⟩ := h
  rw [hstack, pending_append] at hoperators
  refine ⟨(Tree.leaves_of_run hrun).trans hleaves, ?_⟩
  have hmoved := (Tree.operators_of_run hrun).append_right (pending below)
  rw [List.append_assoc] at hmoved
  exact hmoved.trans hoperators

/-- One token more and what it puts on the stacks. -/
theorem Accounted.entered {read : List (Token α)} {m n : Machine (Tree α)} {t : Token α}
    (h : Accounted read m)
    (hleaves : n.values.reverse.flatMap Tree.leaves
      = m.values.reverse.flatMap Tree.leaves ++ Token.numbers [t])
    (hoperators : (n.values.flatMap Tree.operators ++ pending n.deferred).Perm
      (m.values.flatMap Tree.operators ++ pending m.deferred ++ Token.operators [t])) :
    Accounted (read ++ [t]) n := by
  refine ⟨?_, ?_⟩
  · rw [hleaves, h.leaves]
    exact List.filterMap_append.symm
  · refine hoperators.trans ((h.operators.append_right _).trans (List.Perm.of_eq ?_))
    exact List.filterMap_append.symm

/-- A token that goes through is found in the trees or on the stack. -/
theorem Accounted.fed {read : List (Token α)} {m n : Machine (Tree α)} {t : Token α}
    (h : Accounted read m) (hfed : Fed m (t.map .leaf) (.ok n)) : Accounted (read ++ [t]) n := by
  cases t with
  | number value =>
      cases hfed
      refine h.entered ?_ (List.Perm.of_eq ?_)
      · simp [Token.numbers, Tree.leaves]
      · simp [Token.operators, Tree.operators]
  | opening =>
      cases hfed
      refine h.entered ?_ (List.Perm.of_eq ?_)
      · simp [Token.numbers]
      · simp [Token.operators, pending]
  | operator o =>
      cases hfed with
      | operator hstack hdue hstop hrun =>
          refine (h.applied hstack hrun).entered ?_ (List.perm_iff_count.2 fun p => ?_)
          · simp [Token.numbers]
          · simp only [pending, Token.operators, List.filterMap_cons, List.filterMap_nil,
              List.count_append, List.count_cons, List.count_nil]
            omega
  | closing =>
      cases hfed with
      | closing hstack hrun =>
          refine (h.applied hstack hrun).entered ?_ (List.Perm.of_eq ?_)
          · simp [Token.numbers]
          · simp [Token.operators, pending]

theorem Accounted.run {read ts : List (Token α)} {m n : Machine (Tree α)} (h : Accounted read m)
    (hrun : m.run ((ts.map (Token.map Tree.leaf)).map .ok) = .ok n) : Accounted (read ++ ts) n := by
  induction ts generalizing read m with
  | nil =>
      cases hrun
      rw [List.append_nil]
      exact h
  | cons t ts ih =>
      obtain ⟨next, hfeed, hrest⟩ := exists_feed_of_run hrun
      have hnext := ih (h.fed (Fed.of_eq hfeed)) hrest
      rw [List.append_assoc] at hnext
      exact hnext

-- ================================================================== the tree

/-- The tree that a machine over trees answers with. -/
def treeOf (ts : List (Token α)) : Except Fault (Tree α) :=
  Machine.empty.outcome (ts.map (Token.map Tree.leaf))

/-- A machine over numbers answers with the value of the tree. -/
theorem outcome_eq_value_treeOf [Arithmetic α] (ts : List (Token α)) :
    Machine.empty.outcome ts = (treeOf ts).map Tree.value := by
  have hmap := outcome_map Tree.faithful_value Machine.empty (ts.map (Token.map Tree.leaf))
  have hback : (ts.map (Token.map Tree.leaf)).map (Token.map Tree.value) = ts := by
    rw [List.map_map]
    refine (List.map_congr_left fun t _ => ?_).trans (List.map_id ts)
    cases t <;> rfl
  rw [hback] at hmap
  exact hmap

/-- Other numbers give the same tree with other leaves. -/
theorem treeOf_map (f : α → β) (ts : List (Token α)) :
    treeOf (ts.map (Token.map f)) = (treeOf ts).map (Tree.map f) := by
  have hmap := outcome_map (Tree.faithful_map f) Machine.empty (ts.map (Token.map Tree.leaf))
  have hleaf : (ts.map (Token.map Tree.leaf)).map (Token.map (Tree.map f))
      = (ts.map (Token.map f)).map (Token.map Tree.leaf) := by
    rw [List.map_map, List.map_map]
    refine List.map_congr_left fun t _ => ?_
    cases t <;> rfl
  rw [hleaf] at hmap
  exact hmap

end Machine

/-- The tree is made of the tokens: its leaves from left to right are their
numbers in order, and the operators inside are theirs, each as often. -/
structure Tree.MadeOf (t : Tree α) (ts : List (Token α)) : Prop where
  leaves : t.leaves = Token.numbers ts
  operators : t.operators.Perm (Token.operators ts)

namespace Machine

/-- At the end all of it is in one tree. -/
theorem madeOf_of_treeOf {ts : List (Token α)} {t : Tree α} (h : treeOf ts = .ok t) :
    t.MadeOf ts := by
  obtain ⟨n, hrun, hfinish⟩ := outcome_eq_ok_iff.1 h
  have haccounted := Accounted.empty.run hrun
  cases Finished.of_eq hfinish with
  | value hstack hleft =>
      rw [← List.append_nil (List.map _ _)] at hstack
      obtain ⟨hleaves, hoperators⟩ := haccounted.applied hstack hleft
      exact ⟨by simpa using hleaves, by simpa [pending] using hoperators⟩

theorem exists_of_map_eq_ok {γ δ ε : Type} {f : γ → δ} {r : Except ε γ} {y : δ}
    (h : r.map f = .ok y) : ∃ x, r = .ok x ∧ f x = y := by
  cases r with
  | error e => cases h
  | ok x =>
      cases h
      exact ⟨x, rfl, rfl⟩

/-- Tokens with a value are put together to a tree that is made of all of
them, and whose value is theirs. The shape of the tree is the same for all
tokens that differ from them in their numbers only, which therefore have a
value as well, that of a tree of this shape over their own numbers. -/
theorem exists_tree_of_value [Arithmetic α] {ts : List (Token α)} {x : α}
    (h : Machine.empty.outcome ts = .ok x) :
    ∃ shape : Tree Unit,
      (∃ t : Tree α, t.map (fun _ => ()) = shape ∧ t.MadeOf ts ∧ t.value = x)
      ∧ ∀ (β : Type) [Arithmetic β] (us : List (Token β)),
          us.map (Token.map fun _ => ()) = ts.map (Token.map fun _ => ()) →
          ∃ u : Tree β, u.map (fun _ => ()) = shape ∧ u.MadeOf us
            ∧ Machine.empty.outcome us = .ok u.value := by
  rw [outcome_eq_value_treeOf] at h
  obtain ⟨t, htree, hvalue⟩ := exists_of_map_eq_ok h
  refine ⟨t.map fun _ => (), ⟨t, rfl, madeOf_of_treeOf htree, hvalue⟩, ?_⟩
  intro β _ us hus
  have hshape : (treeOf us).map (Tree.map fun _ => ()) = .ok (t.map fun _ => ()) := by
    rw [← treeOf_map, hus, treeOf_map, htree]
    rfl
  obtain ⟨u, hu, hmap⟩ := exists_of_map_eq_ok hshape
  refine ⟨u, hmap, madeOf_of_treeOf hu, ?_⟩
  rw [outcome_eq_value_treeOf, hu]
  rfl

/-- The tokens `3 5 - 2 *` are no sentence, and have the value of a tree that
is made of all of them. -/
theorem tree_of_operands_side_by_side :
    let three := Binary64.ofBits 0x4008000000000000#64
    let five := Binary64.ofBits 0x4014000000000000#64
    let two := Binary64.ofBits 0x4000000000000000#64
    let ts : List (Token Binary64) :=
      [.number three, .number five, .operator .sub, .number two, .operator .mul]
    Machine.empty.outcome ts = .ok (.ofBits 0xc01c000000000000#64)
      ∧ ∃ t : Tree Binary64, t.MadeOf ts ∧ t.value = .ofBits 0xc01c000000000000#64 := by
  intro three five two ts
  have hvalue : Machine.empty.outcome ts = .ok (.ofBits 0xc01c000000000000#64) := by
    decide +kernel
  obtain ⟨-, ⟨t, -, hmade, ht⟩, -⟩ := exists_tree_of_value hvalue
  exact ⟨hvalue, t, hmade, ht⟩

end Machine

end Calculator
