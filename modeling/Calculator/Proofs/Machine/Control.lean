/-
Control never depends on the numbers.

To forget what the numbers are is a faithful map: over the one-element type
every operator has the same result. So the machine that is left when all
numbers are forgotten makes the steps of the machine that knows them, with the
same faults. Two machines that are fed the same tokens up to their numbers
become the same machine when the numbers are forgotten, and that machine still
shows which steps failed and how, what is deferred, and how many values there
are.
-/
import Calculator.Binary64.Bits
import Calculator.Proofs.Machine.Map

namespace Calculator

variable {α β : Type}

-- ================================================================ forgetting

/-- Operators on values that are all the same. -/
instance : Arithmetic Unit where
  add _ _ := ()
  sub _ _ := ()
  mul _ _ := ()
  div _ _ := ()

def forget (_ : α) : Unit := ()

/-- Forgetting what a value is carries the operators over. -/
theorem faithful_forget [Arithmetic α] : Faithful (forget : α → Unit) := fun _ _ _ => rfl

/-- Two machines that differ in what their values are and in nothing else. -/
structure Machine.Alike (m : Machine α) (n : Machine β) : Prop where
  deferred : m.deferred = n.deferred
  values : m.values.length = n.values.length

/-- Two steps that both went through, or failed with the same fault, and that
left machines alike. -/
inductive Step.Alike : Step α → Step β → Prop
  | ok {m : Machine α} {n : Machine β} (h : m.Alike n) : Step.Alike (.ok m) (.ok n)
  | error {fault : Fault} {m : Machine α} {n : Machine β} (h : m.Alike n) :
      Step.Alike (.error ⟨fault, m⟩) (.error ⟨fault, n⟩)

/-- Machines that agree when values are forgotten have equal deferred stacks
and equally many values. -/
theorem Machine.alike_of_forget {m : Machine α} {n : Machine β}
    (h : m.map forget = n.map forget) : m.Alike n := by
  obtain ⟨hdeferred, hvalues⟩ := Machine.mk.inj h
  have hlength := congrArg List.length hvalues
  rw [List.length_map, List.length_map] at hlength
  exact ⟨hdeferred, hlength⟩

/-- Steps that do so both go through, or fail with one fault. -/
theorem Step.alike_of_forget {s : Step α} {t : Step β} (h : s.map forget = t.map forget) :
    s.Alike t := by
  match s, t with
  | .ok m, .ok n => exact .ok (Machine.alike_of_forget (Except.ok.inj h))
  | .error ⟨fault, m⟩, .error ⟨other, n⟩ =>
      obtain ⟨rfl, hleft⟩ := Failure.mk.inj (Except.error.inj h)
      exact .error (Machine.alike_of_forget hleft)
  | .ok _, .error _ => cases h
  | .error _, .ok _ => cases h

namespace Machine

variable [Arithmetic α] [Arithmetic β]

-- =================================================================== two runs

/-- Tokens that are the same but for their numbers, fed to two machines by
callers who go on whatever fails: each pair of steps goes the same way and
leaves machines alike, and at the end either both have a value or both have
the same fault. -/
theorem control_alike {ts : List (Token α)} {us : List (Token β)}
    (h : ts.map (Token.map forget) = us.map (Token.map forget)) :
    List.Forall₂ Step.Alike (empty.steps ts) (empty.steps us)
      ∧ (empty.persist ts).Alike (empty.persist us)
      ∧ (empty.persist ts).finish.map forget = (empty.persist us).finish.map forget := by
  have hsteps : (empty.steps ts).map (Step.map forget) = (empty.steps us).map (Step.map forget) := by
    rw [← steps_map faithful_forget, ← steps_map faithful_forget, h]
    rfl
  have hlast : (empty.persist ts).map forget = (empty.persist us).map forget := by
    rw [← persist_map faithful_forget, ← persist_map faithful_forget, h]
    rfl
  refine ⟨?_, alike_of_forget hlast, ?_⟩
  · rw [← List.forall₂_eq_eq_eq, List.forall₂_map_left_iff, List.forall₂_map_right_iff] at hsteps
    exact hsteps.imp fun _ _ => Step.alike_of_forget
  · rw [← finish_map faithful_forget, ← finish_map faithful_forget, hlast]

/-- `1 / 0 ) + ) 1` and `0 / nan ) + ) 0`: the first closing parenthesis fails
after the division, and the second one at the sum. -/
theorem control_alike_after_failures :
    let tokens (x y : Binary64) : List (Token Binary64) :=
      [.number x, .operator .div, .number y, .closing, .operator .add, .closing, .number x]
    let one := Binary64.ofBits 0x3ff0000000000000#64
    let zero := Binary64.ofBits 0x0#64
    (empty.steps (tokens one zero))[3]? = some (.error ⟨.unopenedGroup, ⟨[], [.infinity false]⟩⟩)
      ∧ (empty.steps (tokens zero .nan))[3]? = some (.error ⟨.unopenedGroup, ⟨[], [.nan]⟩⟩)
      ∧ List.Forall₂ Step.Alike (empty.steps (tokens one zero)) (empty.steps (tokens zero .nan))
      ∧ (empty.persist (tokens one zero)).Alike (empty.persist (tokens zero .nan))
      ∧ (empty.persist (tokens one zero)).finish.map forget = .error .notOneValue
      ∧ (empty.persist (tokens zero .nan)).finish.map forget = .error .notOneValue := by
  intro tokens one zero
  have hsame : (tokens one zero).map (Token.map forget)
      = (tokens zero .nan).map (Token.map forget) := rfl
  obtain ⟨hsteps, hlast, hfinish⟩ := control_alike hsame
  have hfault : (empty.persist (tokens one zero)).finish.map forget = .error .notOneValue := by
    decide +kernel
  exact ⟨by decide +kernel, by decide +kernel, hsteps, hlast, hfault, hfinish.symm.trans hfault⟩

end Machine

end Calculator
