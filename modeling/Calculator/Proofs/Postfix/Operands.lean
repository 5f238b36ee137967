/-
What a postfix program needs in order to run.

Only the numbers of values and of operators decide whether a program runs
through and how much it leaves; no value is looked at. Every operator turns
two values into one, so of the values that are there and those that are
pushed, each operator uses one up, and needs one more to leave as its result.
-/
import Calculator.Proofs.Postfix.Fusion

namespace Calculator.Postfix

variable {α : Type}

-- ================================================================ counting

def pushes : List (Instruction α) → Nat
  | [] => 0
  | .push _ :: program => pushes program + 1
  | .apply _ :: program => pushes program

def applies : List (Instruction α) → Nat
  | [] => 0
  | .push _ :: program => applies program
  | .apply _ :: program => applies program + 1

theorem pushes_operators (taken : List Operator) :
    pushes (taken.map (Instruction.apply (α := α))) = 0 := by
  induction taken with
  | nil => rfl
  | cons o taken ih => exact ih

theorem applies_operators (taken : List Operator) :
    applies (taken.map (Instruction.apply (α := α))) = taken.length := by
  induction taken with
  | nil => rfl
  | cons o taken ih => exact congrArg (· + 1) ih

theorem pushes_append (first second : List (Instruction α)) :
    pushes (first ++ second) = pushes first + pushes second := by
  induction first with
  | nil => simp [pushes]
  | cons instruction first ih =>
      cases instruction with
      | push value =>
          simp only [List.cons_append, pushes, ih]
          omega
      | apply o => simpa only [List.cons_append, pushes] using ih

theorem applies_append (first second : List (Instruction α)) :
    applies (first ++ second) = applies first + applies second := by
  induction first with
  | nil => simp [applies]
  | cons instruction first ih =>
      cases instruction with
      | push value => simpa only [List.cons_append, applies] using ih
      | apply o =>
          simp only [List.cons_append, applies, ih]
          omega

/-- On top of `n` values, every operator has at least two values more in front
of it than operators. -/
def Enough (n : Nat) (program : List (Instruction α)) : Prop :=
  ∀ front o back, program = front ++ .apply o :: back →
    applies front + 2 ≤ n + pushes front

theorem enough_nil (n : Nat) : Enough n ([] : List (Instruction α)) := by
  intro front o back h
  simp at h

/-- A number is a value more for what follows. -/
theorem enough_push {n : Nat} {value : α} {program : List (Instruction α)} :
    Enough n (.push value :: program) ↔ Enough (n + 1) program := by
  constructor
  · intro h front o back hprogram
    have := h (.push value :: front) o back (by rw [hprogram, List.cons_append])
    simp only [applies, pushes] at this
    omega
  · intro h front o back hprogram
    rcases List.cons_eq_append_iff.1 hprogram with ⟨rfl, hback⟩ | ⟨front, rfl, hfront⟩
    · cases hback
    · have := h front o back hfront
      simp only [applies, pushes]
      omega

/-- An operator needs two values and leaves one value less. -/
theorem enough_apply {n : Nat} {o : Operator} {program : List (Instruction α)} :
    Enough n (.apply o :: program) ↔ 2 ≤ n ∧ Enough (n - 1) program := by
  constructor
  · intro h
    have hfirst := h [] o program rfl
    simp only [applies, pushes] at hfirst
    refine ⟨by omega, fun front p back hprogram => ?_⟩
    have := h (.apply o :: front) p back (by rw [hprogram, List.cons_append])
    simp only [applies, pushes] at this
    omega
  · rintro ⟨htwo, h⟩ front p back hprogram
    rcases List.cons_eq_append_iff.1 hprogram with ⟨rfl, hback⟩ | ⟨front, rfl, hfront⟩
    · simpa [applies, pushes] using htwo
    · have := h front p back hfront
      simp only [applies, pushes]
      omega

-- ================================================================= running

variable [Arithmetic α]

/-- A program runs through exactly if every operator finds two values. -/
theorem exists_run_eq_ok_iff {values : List α} {program : List (Instruction α)} :
    (∃ left, run values program = .ok left) ↔ Enough values.length program := by
  induction program generalizing values with
  | nil =>
      constructor
      · intro _
        exact enough_nil _
      · intro _
        exact ⟨values, rfl⟩
  | cons instruction program ih =>
      match instruction, values with
      | .push value, values => rw [run, ih, enough_push, List.length_cons]
      | .apply o, right :: left :: below =>
          rw [run_apply_cons, ih, enough_apply]
          simp
      | .apply o, [] => simp [run_apply_of_few, enough_apply]
      | .apply o, [x] => simp [run_apply_of_few, enough_apply]

/-- Numbers are values more, and operators values less. -/
theorem length_of_run {values left : List α} {program : List (Instruction α)}
    (h : run values program = .ok left) :
    left.length + applies program = values.length + pushes program := by
  induction program generalizing values with
  | nil =>
      cases h
      rfl
  | cons instruction program ih =>
      match instruction with
      | .push value =>
          rw [run] at h
          have := ih h
          simp only [applies, pushes, List.length_cons] at this ⊢
          omega
      | .apply o =>
          obtain ⟨right, under, below, rfl, hrest⟩ := exists_of_run_apply h
          have := ih hrest
          simp only [applies, pushes, List.length_cons] at this ⊢
          omega

/-- A program has a value exactly if nothing stopped its conversion, every
operator finds two values, and one value is left at the end. -/
theorem Program.exists_value_iff {p : Program α} :
    (∃ x, p.value [] = .ok x) ↔ p.stop = none ∧ Enough 0 p.instructions
      ∧ pushes p.instructions = applies p.instructions + 1 := by
  obtain ⟨program, stop⟩ := p
  show (∃ x, (Program.mk program stop).value [] = .ok x)
    ↔ stop = none ∧ Enough 0 program ∧ pushes program = applies program + 1
  unfold Program.value
  constructor
  · rintro ⟨x, h⟩
    cases hrun : run [] program with
    | error fault => simp [hrun] at h
    | ok left =>
        have henough := exists_run_eq_ok_iff.1 ⟨left, hrun⟩
        have hlength := length_of_run hrun
        match left, stop with
        | _, some fault => simp [hrun] at h
        | [], none => simp [hrun] at h
        | _ :: _ :: _, none => simp [hrun] at h
        | [y], none =>
            simp only [List.length_nil, List.length_singleton] at hlength henough
            exact ⟨rfl, henough, by omega⟩
  · rintro ⟨rfl, henough, hcount⟩
    have henough' : Enough ([] : List α).length program := henough
    obtain ⟨left, hrun⟩ := exists_run_eq_ok_iff.2 henough'
    have hlength := length_of_run hrun
    simp only [List.length_nil] at hlength
    obtain ⟨x, rfl⟩ := List.length_eq_one_iff.1 (by omega : left.length = 1)
    exact ⟨x, by rw [hrun]⟩

end Calculator.Postfix
