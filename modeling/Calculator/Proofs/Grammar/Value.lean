/-
A sentence has the value of its tree.

Converting a phrase leaves its last operators deferred until what follows
forces them out. `Converts k tokens t` says that the tokens write `front` and
leave `ops`, and that the two together are the tree in postfix order.

The lines of the grammar are numbered by how tightly their operators bind: 1
for an expression, 2 for a term, 3 for a factor. The induction over
derivations is carried by one condition and one promise in terms of this
level: a looser operator, or none, is on top of the stack that a phrase is read
on, and the operators that it leaves bind at least as tightly as its level.
-/
import Calculator.Binary64.Bits
import Calculator.Grammar
import Calculator.Proofs.Postfix.Fusion

namespace Calculator

open Postfix

variable {α : Type}

-- ======================================================== postfix order

def Tree.program : Tree α → List (Instruction α)
  | leaf x => [.push x]
  | node o left right => left.program ++ (right.program ++ [.apply o])

/-- The program of a tree pushes its value. -/
theorem Tree.run_program [Arithmetic α] (t : Tree α) (values : List α) :
    run values t.program = .ok (t.value :: values) := by
  induction t generalizing values with
  | leaf x => rfl
  | node o left right ihl ihr =>
      rw [Tree.program, run_append_of_ok (ihl values), run_append_of_ok (ihr _)]
      rfl

-- ============================================================== phrases

/-- How tightly the operators of a phrase's line bind. -/
def Category.level : Category → Nat
  | expression => 1
  | term => 2
  | factor => 3

/-- The operators that bind at least as tightly as a level. -/
def atLevel (k : Nat) (o : Operator) : Bool := k ≤ o.precedence

/-- Converting the tokens on a stack with a looser operator on top writes the
tree, but for the operators it leaves deferred. -/
def Converts (k : Nat) (tokens : List (Token α)) (t : Tree α) : Prop :=
  ∀ stack, Stops (atLevel k) stack →
    ∃ (front : List (Instruction α)) (ops : List Operator),
      t.program = front ++ ops.map .apply ∧ (∀ o ∈ ops, atLevel k o = true)
      ∧ ∀ rest, convert stack (tokens ++ rest)
          = (convert (ops.map .operator ++ stack) rest).after front

theorem atLevel_of_succ {k : Nat} {o : Operator} (h : atLevel (k + 1) o = true) :
    atLevel k o = true := by
  simp only [atLevel, decide_eq_true_eq] at h ⊢
  omega

/-- A phrase of one line is a phrase of the line above it. -/
theorem Converts.lower {k : Nat} {tokens : List (Token α)} {t : Tree α}
    (h : Converts (k + 1) tokens t) : Converts k tokens t := by
  intro stack hstop
  have hstop' : Stops (atLevel (k + 1)) stack := by
    intro o rest hs
    have := hstop o rest hs
    simp only [atLevel, decide_eq_false_iff_not] at this ⊢
    omega
  obtain ⟨front, ops, hprogram, hops, hconvert⟩ := h stack hstop'
  exact ⟨front, ops, hprogram, fun o ho => atLevel_of_succ (hops o ho), hconvert⟩

theorem Converts.number (value : α) : Converts 3 [.number value] (.leaf value) := by
  intro stack _
  exact ⟨[.push value], [], rfl, by simp, fun rest => rfl⟩

theorem Postfix.Program.after_after (first second : List (Instruction α)) (p : Program α) :
    (p.after second).after first = p.after (first ++ second) := by
  simp [Program.after]

/-- A group leaves nothing: its end takes everything down to its marker. -/
theorem Converts.group {inner : List (Token α)} {t : Tree α} (h : Converts 1 inner t) :
    Converts 3 (.opening :: (inner ++ [.closing])) t := by
  intro stack _
  obtain ⟨front, ops, hprogram, -, hconvert⟩ := h (.group :: stack) (stops_group _ stack)
  refine ⟨front ++ ops.map .apply, [], ?_, by simp, fun rest => ?_⟩
  · simpa using hprogram
  · have hclose : convert (ops.map .operator ++ .group :: stack) (.closing :: rest)
        = (convert stack rest).after (ops.map .apply) := by
      rw [convert, takeDue_group]
    calc convert stack (.opening :: (inner ++ [.closing]) ++ rest)
        = convert (.group :: stack) (inner ++ .closing :: rest) := by
          rw [List.cons_append, List.append_assoc]
          rfl
      _ = ((convert stack rest).after (ops.map .apply)).after front := by
          rw [hconvert, hclose]
      _ = (convert stack rest).after (front ++ ops.map .apply) := Program.after_after ..

/-- An operator takes what the left phrase left, and stays under what the
right one leaves. -/
theorem Converts.node {k : Nat} {o : Operator} {left right : List (Token α)} {s t : Tree α}
    (ho : o.precedence = k) (hs : Converts k left s) (ht : Converts (k + 1) right t) :
    Converts k (left ++ .operator o :: right) (.node o s t) := by
  intro stack hstop
  obtain ⟨front₁, ops₁, hprogram₁, hops₁, hconvert₁⟩ := hs stack hstop
  -- the right phrase is read on the operator, which is looser than its level
  have hlooser : Stops (atLevel (k + 1)) (.operator o :: stack) := by
    intro p rest h
    cases h
    simp [atLevel, ho]
  obtain ⟨front₂, ops₂, hprogram₂, hops₂, hconvert₂⟩ := ht (.operator o :: stack) hlooser
  refine ⟨front₁ ++ (ops₁.map .apply ++ front₂), ops₂ ++ [o], ?_, ?_, fun rest => ?_⟩
  · simp [Tree.program, hprogram₁, hprogram₂]
  · intro p hp
    rcases List.mem_append.1 hp with hp | hp
    · exact atLevel_of_succ (hops₂ p hp)
    · rw [List.mem_singleton.1 hp]
      simp [atLevel, ho]
  · -- the operator takes what the left phrase left, and nothing from below
    have hdefer : ∀ tokens : List (Token α),
        convert (ops₁.map .operator ++ stack) (.operator o :: tokens)
          = (convert (.operator o :: stack) tokens).after (ops₁.map .apply) := by
      intro tokens
      have htake : takeDue (fun waiting => o.precedence ≤ waiting.precedence)
          (ops₁.map .operator ++ stack) = (ops₁, stack) := by
        rw [ho]
        exact takeDue_eq hops₁ hstop
      simp only [convert, htake]
    calc convert stack (left ++ .operator o :: right ++ rest)
        = ((convert (.operator o :: stack) (right ++ rest)).after (ops₁.map .apply)).after
            front₁ := by
          rw [List.append_assoc, hconvert₁, List.cons_append, hdefer]
      _ = (convert (ops₂.map .operator ++ .operator o :: stack) rest).after
            (front₁ ++ (ops₁.map .apply ++ front₂)) := by
          rw [hconvert₂, Program.after_after, Program.after_after, List.append_assoc]
      _ = (convert ((ops₂ ++ [o]).map .operator ++ stack) rest).after
            (front₁ ++ (ops₁.map .apply ++ front₂)) := by
          simp

/-- A derivation of any category converts to the program of its tree. -/
theorem Derives.converts {c : Category} {tokens : List (Token α)} {t : Tree α}
    (h : Derives c tokens t) : Converts c.level tokens t := by
  induction h with
  | number value => exact Converts.number value
  | group _ ih => exact Converts.group ih
  | ofFactor _ ih => exact ih.lower
  | ofTerm _ ih => exact ih.lower
  | product ho _ _ ihs iht =>
      refine Converts.node ?_ ihs iht
      rcases ho with rfl | rfl <;> rfl
  | sum ho _ _ ihs iht =>
      refine Converts.node ?_ ihs iht
      rcases ho with rfl | rfl <;> rfl

/-- The conversion of a sentence is its tree in postfix order. -/
theorem convert_sentence {tokens : List (Token α)} {t : Tree α}
    (h : Derives .expression tokens t) : convert [] tokens = ⟨t.program, none⟩ := by
  obtain ⟨front, ops, hprogram, -, hconvert⟩ := h.converts [] (stops_nil _)
  have hend := hconvert []
  simp only [List.append_nil] at hend
  rw [hend, convert, takeDue_operators, hprogram]
  rfl

-- ============================================================ sentences

theorem Derives.ne_nil {c : Category} {tokens : List (Token α)} {t : Tree α}
    (h : Derives c tokens t) : tokens ≠ [] := by
  induction h with
  | number value => simp
  | group _ _ => simp
  | ofFactor _ ih => exact ih
  | ofTerm _ ih => exact ih
  | product _ _ _ _ _ => simp
  | sum _ _ _ _ _ => simp

/-- The machine answers a sentence with the value of its tree. -/
theorem outcome_sentence [Arithmetic α] {tokens : List (Token α)} {t : Tree α}
    (h : Derives .expression tokens t) : Machine.empty.outcome tokens = .ok t.value := by
  have houtcome := outcome_eq_value Machine.empty tokens
  rw [houtcome]
  show (convert [] tokens).value [] = _
  rw [convert_sentence h]
  unfold Program.value
  rw [Tree.run_program]

/-- A text whose tokens are a sentence is taken to its end without a fault,
and its value is the value of the sentence's tree: the operators group as the
grammar says and each is applied to the values of its two sides. -/
theorem evaluate_sentence {text : String} {ts : List (Token Binary64)} {t : Tree Binary64}
    (htokens : tokens text = ts.map .ok) (h : Derives .expression ts t) :
    (∃ m, Machine.empty.run (tokens text) = .ok m ∧ m.finish = .ok t.value)
      ∧ evaluate text = .ok (some t.value) := by
  have houtcome := outcome_sentence h
  constructor
  · rw [htokens]
    exact Machine.outcome_eq_ok_iff.1 houtcome
  · rw [evaluate_of_tokens htokens h.ne_nil, houtcome]
    rfl

/-- A product after a difference, its left side a group that is a difference
itself. -/
theorem evaluate_sentence_nested :
    ∃ (ts : List (Token Binary64)) (t : Tree Binary64),
      tokens "8 - (2 - 3) * 4" = ts.map .ok ∧ Derives .expression ts t
        ∧ evaluate "8 - (2 - 3) * 4" = .ok (some t.value)
        ∧ t.value = .ofBits 0x4028000000000000#64 := by
  let two := Binary64.ofBits 0x4000000000000000#64
  let three := Binary64.ofBits 0x4008000000000000#64
  let four := Binary64.ofBits 0x4010000000000000#64
  let eight := Binary64.ofBits 0x4020000000000000#64
  have difference : Derives .expression ([.number two] ++ .operator .sub :: [.number three])
      (.node .sub (.leaf two) (.leaf three)) :=
    .sum (Or.inr rfl) (.ofTerm (.ofFactor (.number two))) (.ofFactor (.number three))
  have product := Derives.product (Or.inl rfl) (.ofFactor (.group difference)) (.number four)
  have sentence := Derives.sum (Or.inr rfl) (.ofTerm (.ofFactor (.number eight))) product
  refine ⟨_, _, ?_, sentence, (evaluate_sentence ?_ sentence).2, ?_⟩
  · decide +kernel
  · decide +kernel
  · decide +kernel

end Calculator
