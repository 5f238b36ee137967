/-
What has been written when some tokens have been read.

The deferred stack goes its way without looking at values. So what the tokens
write settles what the machine does with them on any values at all
(`run_on_values`), and it begins the program of everything that goes on from
there (`convert_append_of_run`).

A loop never takes anything from below a marker. While a group is open, and
when its end is read, its tokens therefore write what they would write on an
empty stack (`written_inside`). When an operator is written, the numbers
written before it are all that were read, so the balance with gaps and surplus
operands bounds the values that a group needs from elsewhere
(`enough_of_gaps`).
-/
import Calculator.Proofs.Machine.Ledger
import Calculator.Proofs.Postfix.Operands

namespace Calculator.Postfix

open Token

variable {α : Type}

-- ================================================================= the stack

/-- The operators on top that are due, up to where a drain would stop. -/
theorem takeDue_spec (due : Operator → Bool) (stack : List Deferred) :
    stack = (takeDue due stack).1.map .operator ++ (takeDue due stack).2
      ∧ Stops due (takeDue due stack).2 := by
  induction stack with
  | nil => exact ⟨rfl, stops_nil due⟩
  | cons entry stack ih =>
      cases entry with
      | group => exact ⟨rfl, stops_group due stack⟩
      | operator o =>
          cases ho : due o with
          | true =>
              rw [takeDue, if_pos ho]
              exact ⟨congrArg (Deferred.operator o :: ·) ih.1, ih.2⟩
          | false =>
              rw [takeDue, if_neg (by simp [ho])]
              refine ⟨rfl, fun p rest h => ?_⟩
              cases h
              exact ho

/-- Operators that are taken have been waiting. -/
theorem length_takeDue (due : Operator → Bool) (stack : List Deferred) :
    (takeDue due stack).1.length + waiting (takeDue due stack).2 = waiting stack := by
  rw [← waiting_operators, ← (takeDue_spec due stack).1]

/-- Taking operators leaves every marker. -/
theorem count_takeDue (due : Operator → Bool) (stack : List Deferred) :
    (takeDue due stack).2.count .group = stack.count .group := by
  rw [← count_group_operators (takeDue due stack).1, ← (takeDue_spec due stack).1]

/-- A marker and what is below it are not looked at. -/
theorem takeDue_above_group (due : Operator → Bool) (stack older : List Deferred) :
    takeDue due (stack ++ .group :: older)
      = ((takeDue due stack).1, (takeDue due stack).2 ++ .group :: older) := by
  induction stack with
  | nil => rfl
  | cons entry stack ih =>
      cases entry with
      | group => rfl
      | operator o =>
          rw [List.cons_append, takeDue, takeDue]
          split
          · rw [ih]
          · rfl

-- ================================================================= one token

/-- Of the operators that were waiting or have come, those that are not written
are waiting. -/
theorem applies_read (stack : List Deferred) (t : Token α) :
    applies (read stack t).1 + waiting (read stack t).2 = count .operator [t] + waiting stack := by
  cases t with
  | number value => simp [read, applies]
  | opening => simp [read, applies, waiting]
  | operator o =>
      have htaken := length_takeDue (fun p => o.precedence ≤ p.precedence) stack
      simp only [read, applies_operators, waiting, count_cons, count_nil, kind, reduceIte]
      omega
  | closing =>
      have htaken := length_takeDue (fun _ => true) stack
      have hbelow : waiting (takeDue (fun _ => true) stack).2.tail
          = waiting (takeDue (fun _ => true) stack).2 := by
        rcases (takeDue_spec _ stack).2.nil_or_group with hnil | ⟨rest, hrest⟩
        · rw [hnil]
          rfl
        · rw [hrest]
          rfl
      simp only [read, applies_operators, hbelow, count_cons, count_nil, kind, reduceCtorEq,
        reduceIte]
      omega

/-- A number is written at once. -/
theorem pushes_read (stack : List Deferred) (t : Token α) :
    pushes (read stack t).1 = count .number [t] := by
  cases t <;> simp [read, pushes, pushes_operators]

/-- What writes operators is an operator or the end of a group, and writes no
number in front of them. -/
theorem kind_of_read {stack : List Deferred} {t : Token α} {front back : List (Instruction α)}
    {o : Operator} (h : (read stack t).1 = front ++ .apply o :: back) :
    (t.kind = .operator ∨ t.kind = .closing) ∧ pushes front = 0
      ∧ applies front + 1 ≤ waiting stack := by
  have hrow {due : Operator → Bool}
      (hread : (takeDue due stack).1.map .apply = front ++ Instruction.apply (α := α) o :: back) :
      pushes front = 0 ∧ applies front + 1 ≤ waiting stack := by
    have hpushes := pushes_operators (α := α) (takeDue due stack).1
    have happlies := applies_operators (α := α) (takeDue due stack).1
    have htaken := length_takeDue due stack
    rw [hread, pushes_append] at hpushes
    rw [hread, applies_append, applies] at happlies
    omega
  cases t with
  | number value =>
      rcases List.cons_eq_append_iff.1 h with ⟨-, hback⟩ | ⟨front, -, hnil⟩
      · cases hback
      · simp at hnil
  | opening => simp [read] at h
  | operator p => exact ⟨Or.inl rfl, hrow h⟩
  | closing => exact ⟨Or.inr rfl, hrow h⟩

-- ============================================================== a row of them

/-- An operator that has been written: where it was brought out, every number
read so far stands in front of it, and of the operators read and waiting it is
one that does not. -/
theorem exists_read_of_written {stack : List Deferred} {ts : List (Token α)}
    {front back : List (Instruction α)} {o : Operator}
    (h : written stack ts = front ++ .apply o :: back) :
    ∃ before t after, ts = before ++ t :: after ∧ (t.kind = .operator ∨ t.kind = .closing)
      ∧ pushes front = count .number before
      ∧ applies front + 1 ≤ count .operator before + waiting stack := by
  induction ts generalizing stack front with
  | nil => simp [written] at h
  | cons t ts ih =>
      have hplace : (∃ later, front = (read stack t).1 ++ later
            ∧ written (read stack t).2 ts = later ++ .apply o :: back)
          ∨ ∃ rest, (read stack t).1 = front ++ .apply o :: rest := by
        rcases List.append_eq_append_iff.1 h with ⟨later, hfront, hlater⟩ | ⟨rest, hread, hrest⟩
        · exact Or.inl ⟨later, hfront, hlater⟩
        · rcases List.cons_eq_append_iff.1 hrest with ⟨rfl, hlater⟩ | ⟨rest, rfl, -⟩
          · exact Or.inl ⟨[], by rw [hread, List.append_nil, List.append_nil], hlater⟩
          · exact Or.inr ⟨rest, hread⟩
      rcases hplace with ⟨later, rfl, hlater⟩ | ⟨rest, hread⟩
      · -- a token further on brings it out
        obtain ⟨before, u, after, rfl, hkind, hpushes, happlies⟩ := ih hlater
        have hnumbers := pushes_read stack t
        have hoperators := applies_read stack t
        refine ⟨t :: before, u, after, rfl, hkind, ?_, ?_⟩
        · rw [pushes_append, ← List.singleton_append, count_append]
          omega
        · rw [applies_append, ← List.singleton_append, count_append]
          omega
      · -- this one does
        obtain ⟨hkind, hpushes, happlies⟩ := kind_of_read hread
        exact ⟨[], t, ts, rfl, hkind, hpushes, by simpa using happlies⟩

/-- Operators that tokens write find enough values if in every beginning of
the tokens the gaps are made up for by surplus operands and by values that
were there. -/
theorem enough_of_gaps {k : Nat} {ts : List (Token α)}
    (h : ∀ p, p <+: ts → gapsPassed false p ≤ k + surplus false p) : Enough k (written [] ts) := by
  intro front o back hwritten
  obtain ⟨before, t, after, rfl, hkind, hpushes, happlies⟩ := exists_read_of_written hwritten
  have hgaps := h (before ++ [t]) (List.prefix_append_right_inj before |>.2 (by simp))
  have hbalance := count_add_gaps false before
  rw [gapsPassed_snoc false before hkind, surplus_snoc false before hkind] at hgaps
  rw [Bool.toNat_false] at hbalance
  simp only [waiting] at happlies
  omega

-- ==================================================================== a group

/-- A marker below stays where it is, and what is below it, unless it is the
one that the token removes. -/
theorem read_above_group (stack older : List Deferred) (t : Token α) :
    (read (stack ++ .group :: older) t).1 = (read stack t).1
      ∧ (count .closing [t] ≤ stack.count .group →
        (read (stack ++ .group :: older) t).2 = (read stack t).2 ++ .group :: older) := by
  cases t with
  | number value => exact ⟨rfl, fun _ => rfl⟩
  | opening => exact ⟨rfl, fun _ => rfl⟩
  | operator o =>
      have habove := takeDue_above_group (fun p => o.precedence ≤ p.precedence) stack older
      simp [read, habove]
  | closing =>
      have habove := takeDue_above_group (fun _ => true) stack older
      have hmarkers := count_takeDue (fun _ => true) stack
      simp only [read, habove, true_and]
      intro hopen
      rcases (takeDue_spec _ stack).2.nil_or_group with hnil | ⟨rest, hrest⟩
      · rw [hnil] at hmarkers
        simp [← hmarkers] at hopen
      · rw [hrest]
        rfl

/-- A token opens or closes one group, or none. -/
theorem count_read (stack : List Deferred) (t : Token α)
    (h : count .closing [t] ≤ stack.count .group) :
    (read stack t).2.count .group + count .closing [t] = stack.count .group + count .opening [t] := by
  cases t with
  | number value => rfl
  | opening => simp [read]
  | operator o => simpa [read] using count_takeDue (fun p => o.precedence ≤ p.precedence) stack
  | closing =>
      have hmarkers := count_takeDue (fun _ => true) stack
      rcases (takeDue_spec (fun _ => true) stack).2.nil_or_group with hnil | ⟨rest, hrest⟩
      · rw [hnil] at hmarkers
        simp [← hmarkers] at h
      · rw [hrest] at hmarkers
        simpa [read, hrest] using hmarkers

/-- Tokens that close none of the groups below, but for the last one of them,
write what they write above an empty stack. -/
theorem written_above_group {stack older : List Deferred} {ts : List (Token α)}
    (h : ∀ p, p <+: ts.dropLast → count .closing p ≤ stack.count .group + count .opening p) :
    written (stack ++ .group :: older) ts = written stack ts := by
  induction ts generalizing stack with
  | nil => rfl
  | cons t ts ih =>
      obtain ⟨hwrites, hbelow⟩ := read_above_group stack older t
      rw [written, written, hwrites]
      cases ts with
      | nil => rfl
      | cons u ts =>
          have hfront (p : List (Token α)) (hp : p <+: (u :: ts).dropLast) :
              count .closing (t :: p) ≤ stack.count .group + count .opening (t :: p) :=
            h (t :: p) (List.prefix_cons_inj t |>.2 hp)
          have hfirst : count .closing [t] ≤ stack.count .group := by
            have := hfront [] List.nil_prefix
            cases t with
            | closing => simpa using this
            | _ => simp
          have hcount := count_read stack t hfirst
          rw [hbelow hfirst, ih fun p hp => ?_]
          have := hfront p hp
          rw [← List.singleton_append, count_append, count_append] at this
          omega

/-- So a group writes by itself, whatever has been deferred outside. -/
theorem written_inside {inside : List (Token α)} (h : Nested inside.dropLast)
    (older : List Deferred) : written (.group :: older) inside = written [] inside := by
  have hnested : ∀ p, p <+: inside.dropLast →
      count .closing p ≤ ([] : List Deferred).count .group + count .opening p := fun p hp => by
    simpa using h p hp
  exact written_above_group hnested

-- =============================================================== other values

variable [Arithmetic α]

/-- What fails in a program is an operator. -/
theorem exists_of_run_error {values : List α} {program : List (Instruction α)} {fault : Fault}
    (h : run values program = .error fault) :
    ∃ front o back left, program = front ++ .apply o :: back ∧ run values front = .ok left
      ∧ left.length < 2 ∧ fault = .missingOperand o := by
  induction program generalizing values with
  | nil => cases h
  | cons instruction program ih =>
      match instruction, values with
      | .push value, values =>
          obtain ⟨front, o, back, left, rfl, hrun, hrest⟩ := ih h
          exact ⟨.push value :: front, o, back, left, rfl, hrun, hrest⟩
      | .apply p, right :: under :: below =>
          obtain ⟨front, o, back, left, rfl, hrun, hrest⟩ := ih h
          exact ⟨.apply p :: front, o, back, left, rfl, hrun, hrest⟩
      | .apply p, [] =>
          cases h
          exact ⟨[], p, program, [], rfl, rfl, by simp, rfl⟩
      | .apply p, [x] =>
          cases h
          exact ⟨[], p, program, [x], rfl, rfl, by simp, rfl⟩

/-- Operators in a row that fail: those that went through, and the one that
did not. -/
theorem exists_of_run_operators_error {values : List α} {taken : List Operator} {fault : Fault}
    (h : run values (taken.map .apply) = .error fault) :
    ∃ done o more left, taken = done ++ o :: more ∧ run values (done.map .apply) = .ok left
      ∧ left.length < 2 ∧ fault = .missingOperand o := by
  obtain ⟨front, o, back, left, hprogram, hrun, hfew, hfault⟩ := exists_of_run_error h
  obtain ⟨done, rest, rfl, rfl, hrest⟩ := List.map_eq_append_iff.1 hprogram
  obtain ⟨p, more, rfl, hp, -⟩ := List.map_eq_cons_iff.1 hrest
  cases hp
  exact ⟨done, o, more, left, rfl, hrun, hfew, hfault⟩

end Calculator.Postfix

namespace Calculator.Machine

variable {α : Type} [Arithmetic α] {m n : Machine α} {t : Token α} {ts : List (Token α)}

open Postfix (written)

/-- Where the tokens have gone through, what they have written begins the
program of everything that goes on from there. -/
theorem convert_append_of_run (h : m.run (ts.map .ok) = .ok n) (us : List (Token α)) :
    Postfix.convert m.deferred (ts ++ us)
      = (Postfix.convert n.deferred us).after (written m.deferred ts) := by
  induction ts generalizing m with
  | nil =>
      cases h
      rfl
  | cons t ts ih =>
      obtain ⟨next, hfeed, hrest⟩ := exists_feed_of_run h
      obtain ⟨front, hread, -, hconvert⟩ := Postfix.convert_of_fed (Fed.of_eq hfeed)
      rw [List.cons_append, hconvert, ih hrest, written, hread]
      simp only [Postfix.Program.after, List.append_assoc]

/-- And they leave the values that it leaves. -/
theorem run_written (h : m.run (ts.map .ok) = .ok n) :
    Postfix.run m.values (written m.deferred ts) = .ok n.values := by
  induction ts generalizing m with
  | nil =>
      cases h
      rfl
  | cons t ts ih =>
      obtain ⟨next, hfeed, hrest⟩ := exists_feed_of_run h
      obtain ⟨front, hread, hfront, -⟩ := Postfix.convert_of_fed (Fed.of_eq hfeed)
      rw [written, hread, Postfix.run_append_of_ok hfront]
      exact ih hrest

/-- Where the operators that a token forces fail in a row, the token fails. -/
theorem exists_feed_of_row_error {taken : List Operator} {below : List Deferred} {fault : Fault}
    (hstack : m.deferred = taken.map .operator ++ below) (hdue : ∀ p ∈ taken, t.forces p = true)
    (h : Postfix.run m.values (taken.map .apply) = .error fault) :
    ∃ left, m.feed t = .error ⟨fault, left⟩ := by
  obtain ⟨done, o, more, left, rfl, hrun, hfew, rfl⟩ := Postfix.exists_of_run_operators_error h
  have hshort : m.deferred
      = done.map .operator ++ .operator o :: (more.map .operator ++ below) := by
    rw [hstack, List.map_append, List.map_cons, List.append_assoc, List.cons_append]
  have hforced : ∀ p ∈ done ++ [o], t.forces p = true := fun p hp => hdue p (by
    rw [List.append_cons]
    exact List.mem_append_left _ hp)
  exact ⟨_, (Fed.short hshort hforced hrun hfew).eq⟩

/-- A token that forces a row of operators, on any values: the row decides. -/
theorem feed_row {taken : List Operator} {below after : List Deferred}
    (hstack : m.deferred = taken.map .operator ++ below) (hdue : ∀ p ∈ taken, t.forces p = true)
    (hok : ∀ left, Postfix.run m.values (taken.map .apply) = .ok left →
      m.feed t = .ok ⟨after, left⟩) :
    (m.feed t).mapError Failure.fault
      = (Postfix.run m.values (taken.map .apply)).map (Machine.mk after) := by
  cases hrun : Postfix.run m.values (taken.map .apply) with
  | ok left =>
      rw [hok left hrun]
      rfl
  | error fault =>
      obtain ⟨left, hfails⟩ := exists_feed_of_row_error hstack hdue hrun
      rw [hfails]
      rfl

/-- A token that goes through, on other values: what it writes decides. -/
theorem feed_on_values (h : Fed m t (.ok n)) (values : List α) :
    ((Machine.mk m.deferred values).feed t).mapError Failure.fault
      = (Postfix.run values (Postfix.read m.deferred t).1).map (Machine.mk n.deferred) := by
  cases h with
  | number value => rfl
  | opening => rfl
  | @operator o taken below left hstack hdue hstop hrun =>
      have htake : Postfix.takeDue (fun waiting => o.precedence ≤ waiting.precedence)
          (taken.map .operator ++ below) = (taken, below) := Postfix.takeDue_eq hdue hstop
      simp only [Postfix.read, hstack, htake]
      rw [← hstack]
      exact feed_row (m := ⟨m.deferred, values⟩) hstack hdue fun left hleft =>
        (Fed.operator (m := ⟨m.deferred, values⟩) hstack hdue hstop hleft).eq
  | @closing taken rest left hstack hrun =>
      simp only [Postfix.read, hstack, Postfix.takeDue_group]
      rw [← hstack]
      exact feed_row (m := ⟨m.deferred, values⟩) hstack (fun _ _ => rfl) fun left hleft =>
        (Fed.closing (m := ⟨m.deferred, values⟩) hstack hleft).eq

/-- Tokens that go through on some values go through on others exactly if the
program that they write does, and with the values that it leaves; where it
fails, they fail with its fault. -/
theorem run_on_values (h : m.run (ts.map .ok) = .ok n) (values : List α) :
    ((Machine.mk m.deferred values).run (ts.map .ok)).mapError Failure.fault
      = (Postfix.run values (written m.deferred ts)).map (Machine.mk n.deferred) := by
  induction ts generalizing m values with
  | nil =>
      cases h
      rfl
  | cons t ts ih =>
      obtain ⟨next, hfeed, hrest⟩ := exists_feed_of_run h
      have hfed := Fed.of_eq hfeed
      have hfirst := feed_on_values hfed values
      obtain ⟨front, hread, -, -⟩ := Postfix.convert_of_fed hfed
      rw [hread] at hfirst
      rw [written, hread, Postfix.run_append]
      cases hfront : Postfix.run values front with
      | ok left =>
          rw [hfront] at hfirst
          cases hother : (Machine.mk m.deferred values).feed t with
          | ok next' =>
              rw [hother] at hfirst
              cases hfirst
              rw [run_tokens_cons_of_ok hother]
              exact ih hrest left
          | error failure =>
              rw [hother] at hfirst
              cases hfirst
      | error fault =>
          rw [hfront] at hfirst
          cases hother : (Machine.mk m.deferred values).feed t with
          | ok next' =>
              rw [hother] at hfirst
              cases hfirst
          | error failure =>
              rw [hother] at hfirst
              cases hfirst
              rw [run_tokens_cons_of_error hother]
              rfl

/-- Where the program runs through on other values, so do the tokens. -/
theorem run_eq_ok_of_written {values left : List α} (h : m.run (ts.map .ok) = .ok n)
    (hleft : Postfix.run values (written m.deferred ts) = .ok left) :
    (Machine.mk m.deferred values).run (ts.map .ok) = .ok ⟨n.deferred, left⟩ := by
  have hother := run_on_values h values
  rw [hleft] at hother
  cases hrun : (Machine.mk m.deferred values).run (ts.map .ok) with
  | ok next =>
      rw [hrun] at hother
      cases hother
      rfl
  | error failure =>
      rw [hrun] at hother
      cases hother

/-- Where it does not, they fail with its fault. -/
theorem exists_run_eq_error_of_written {values : List α} {fault : Fault}
    (h : m.run (ts.map .ok) = .ok n)
    (hfault : Postfix.run values (written m.deferred ts) = .error fault) :
    ∃ left, (Machine.mk m.deferred values).run (ts.map .ok) = .error ⟨fault, left⟩ := by
  have hother := run_on_values h values
  rw [hfault] at hother
  cases hrun : (Machine.mk m.deferred values).run (ts.map .ok) with
  | ok next =>
      rw [hrun] at hother
      cases hother
  | error failure =>
      rw [hrun] at hother
      cases hother
      exact ⟨failure.left, rfl⟩

end Calculator.Machine
