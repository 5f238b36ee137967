/-
What counting tells of tokens.

Tokens are counted by kind. Parentheses are nested if no beginning of the
tokens closes more groups than it opens, and balanced if every group is closed
as well.

An operand that begins right behind another one is surplus: an operator is
missing between the two. Where an operator, the end of a group or the end of
the tokens finds no operand in front of it, there is a gap. Whatever the tokens
are, the numbers and the gaps together are one more than the operators and the
surplus (`count_add_gaps`).
-/
import Calculator.Token

namespace Calculator

variable {α : Type}

namespace Token

-- ================================================================== kinds

inductive Kind where
  | number
  | operator
  | opening
  | closing
  deriving DecidableEq

@[simp] def kind : Token α → Kind
  | .number _ => .number
  | .operator _ => .operator
  | .opening => .opening
  | .closing => .closing

def count (k : Kind) (ts : List (Token α)) : Nat := (ts.map kind).count k

@[simp] theorem count_nil (k : Kind) : count k ([] : List (Token α)) = 0 := rfl

@[simp] theorem count_cons (k : Kind) (t : Token α) (ts : List (Token α)) :
    count k (t :: ts) = count k ts + if t.kind = k then 1 else 0 := by
  simp only [count, List.map_cons, List.count_cons, beq_iff_eq]

@[simp] theorem count_append (k : Kind) (ts us : List (Token α)) :
    count k (ts ++ us) = count k ts + count k us := by
  simp [count]

end Token

open Token

-- ============================================================ parentheses

/-- No beginning of the tokens has more closing than opening parentheses. -/
def Nested (ts : List (Token α)) : Prop :=
  ∀ front, front <+: ts → count .closing front ≤ count .opening front

/-- The parentheses are nested and as many open as close. -/
structure Balanced (ts : List (Token α)) : Prop where
  nested : Nested ts
  closed : count .opening ts = count .closing ts

theorem nested_nil : Nested ([] : List (Token α)) := by
  intro front h
  rw [List.prefix_nil.1 h]
  simp

/-- One more token keeps tokens nested unless it closes too much itself. -/
theorem Nested.snoc {ts : List (Token α)} {t : Token α} (h : Nested ts)
    (ht : count .closing (ts ++ [t]) ≤ count .opening (ts ++ [t])) : Nested (ts ++ [t]) := by
  intro front hfront
  rcases List.prefix_concat_iff.1 hfront with rfl | hfront
  · exact ht
  · exact h front hfront

-- ======================================================= surplus and gaps

/-- The operands that begin right behind an operand. `after` says whether one
has just ended. -/
def surplus (after : Bool) : List (Token α) → Nat
  | [] => 0
  | .number _ :: ts => after.toNat + surplus true ts
  | .operator _ :: ts => surplus false ts
  | .opening :: ts => after.toNat + surplus false ts
  | .closing :: ts => surplus true ts

/-- The places where an operand should have ended and none did. -/
def gaps (after : Bool) : List (Token α) → Nat
  | [] => (!after).toNat
  | .number _ :: ts => gaps true ts
  | .operator _ :: ts => (!after).toNat + gaps false ts
  | .opening :: ts => gaps false ts
  | .closing :: ts => (!after).toNat + gaps true ts

/-- The balance of numbers, operators, surplus and gaps. -/
theorem count_add_gaps (after : Bool) (ts : List (Token α)) :
    count .number ts + gaps after ts + after.toNat
      = count .operator ts + surplus after ts + 1 := by
  have hnot (b : Bool) : (!b).toNat + b.toNat = 1 := by cases b <;> rfl
  induction ts generalizing after with
  | nil =>
      rw [count_nil, count_nil, gaps, surplus]
      have := hnot after
      omega
  | cons t ts ih =>
      have hthis := hnot after
      have htrue := ih true
      have hfalse := ih false
      rw [Bool.toNat_true] at htrue
      rw [Bool.toNat_false] at hfalse
      cases t with
      | number value =>
          simp only [count_cons, kind, gaps, surplus, reduceIte, reduceCtorEq]
          omega
      | operator o =>
          simp only [count_cons, kind, gaps, surplus, reduceIte, reduceCtorEq]
          omega
      | opening =>
          simp only [count_cons, kind, gaps, surplus, reduceIte, reduceCtorEq]
          omega
      | closing =>
          simp only [count_cons, kind, gaps, surplus, reduceIte, reduceCtorEq]
          omega

/-- The gaps in front of an operator or of the end of a group, without the one
that may be at the end of the tokens. -/
def gapsPassed (after : Bool) : List (Token α) → Nat
  | [] => 0
  | .number _ :: ts => gapsPassed true ts
  | .operator _ :: ts => (!after).toNat + gapsPassed false ts
  | .opening :: ts => gapsPassed false ts
  | .closing :: ts => (!after).toNat + gapsPassed true ts

/-- An operator or the end of a group passes the gap that was at the end. -/
theorem gapsPassed_snoc (after : Bool) (ts : List (Token α)) {t : Token α}
    (ht : t.kind = .operator ∨ t.kind = .closing) : gapsPassed after (ts ++ [t]) = gaps after ts := by
  induction ts generalizing after with
  | nil =>
      cases t with
      | number value => simp at ht
      | operator o => rfl
      | opening => simp at ht
      | closing => rfl
  | cons u ts ih => cases u <;> simp only [List.cons_append, gapsPassed, gaps, ih]

/-- Neither of them is surplus. -/
theorem surplus_snoc (after : Bool) (ts : List (Token α)) {t : Token α}
    (ht : t.kind = .operator ∨ t.kind = .closing) :
    surplus after (ts ++ [t]) = surplus after ts := by
  induction ts generalizing after with
  | nil =>
      cases t with
      | number value => simp at ht
      | operator o => rfl
      | opening => simp at ht
      | closing => rfl
  | cons u ts ih => cases u <;> simp only [List.cons_append, surplus, ih]

end Calculator
