/-
Runs over tokens, and what evaluating a text can come to.

A run over the items of a text is a run over tokens up to the first item that
fails, whether that item is a word without a meaning or a token the machine
cannot take. `outcome` is the whole way of a machine over tokens: fed until
one fails, and ended if none does. `Evaluated` lists what evaluating a text
can come to, with the run behind each outcome.
-/
import Calculator.Evaluation
import Calculator.Proofs.Machine.Step
import Calculator.Proofs.Text.Words

namespace Calculator

namespace Machine

variable {α : Type} [Arithmetic α]

-- ============================================================ over items

/-- A run that goes through has seen tokens only. -/
theorem exists_tokens_of_run_eq_ok {m n : Machine α} {items : List (Except Fault (Token α))}
    (h : m.run items = .ok n) : ∃ ts : List (Token α), items = ts.map .ok := by
  induction items generalizing m with
  | nil => exact ⟨[], rfl⟩
  | cons item items ih =>
      cases ho : m.offer item with
      | error failure =>
          rw [run_cons_of_error ho] at h
          cases h
      | ok next =>
          rw [run_cons_of_ok ho] at h
          obtain ⟨ts, rfl⟩ := ih h
          match item with
          | .ok t => exact ⟨t :: ts, rfl⟩
          | .error fault => cases ho

/-- A run that fails took tokens up to the item that failed. -/
theorem exists_first_of_run_eq_error {m : Machine α} {items : List (Except Fault (Token α))}
    {failure : Failure α} (h : m.run items = .error failure) :
    ∃ (ts : List (Token α)) (item : Except Fault (Token α))
      (rest : List (Except Fault (Token α))) (n : Machine α),
      items = ts.map .ok ++ item :: rest ∧ m.run (ts.map .ok) = .ok n
        ∧ n.offer item = .error failure := by
  induction items generalizing m with
  | nil => cases h
  | cons item items ih =>
      cases ho : m.offer item with
      | error failure' =>
          rw [run_cons_of_error ho] at h
          cases h
          exact ⟨[], item, items, m, rfl, rfl, ho⟩
      | ok next =>
          rw [run_cons_of_ok ho] at h
          obtain ⟨ts, last, rest, n, rfl, hrun, hlast⟩ := ih h
          match item with
          | .ok t => exact ⟨t :: ts, last, rest, n, rfl, (run_cons_of_ok ho _).trans hrun, hlast⟩
          | .error fault => cases ho

-- =========================================================== over tokens

theorem run_tokens_cons_of_ok {m n : Machine α} {t : Token α} (h : m.feed t = .ok n)
    (ts : List (Token α)) : m.run ((t :: ts).map .ok) = n.run (ts.map .ok) := by
  have ho : m.offer (.ok t) = .ok n := h
  exact run_cons_of_ok ho _

theorem run_tokens_cons_of_error {m : Machine α} {failure : Failure α} {t : Token α}
    (h : m.feed t = .error failure) (ts : List (Token α)) :
    m.run ((t :: ts).map .ok) = .error failure := by
  have ho : m.offer (.ok t) = .error failure := h
  exact run_cons_of_error ho _

/-- Where tokens go through, the first one does, and the others behind it. -/
theorem exists_feed_of_run {m n : Machine α} {t : Token α} {ts : List (Token α)}
    (h : m.run ((t :: ts).map .ok) = .ok n) :
    ∃ next, m.feed t = .ok next ∧ next.run (ts.map .ok) = .ok n := by
  cases hfeed : m.feed t with
  | error failure =>
      rw [run_tokens_cons_of_error hfeed] at h
      cases h
  | ok next =>
      rw [run_tokens_cons_of_ok hfeed] at h
      exact ⟨next, rfl, h⟩

/-- What each token that goes through preserves, a run over tokens preserves. -/
theorem run_preserves {P : List (Token α) → Machine α → Prop}
    (hstep : ∀ {read m t n}, P read m → Fed m t (.ok n) → P (read ++ [t]) n)
    {read ts : List (Token α)} {m n : Machine α} (h : P read m)
    (hrun : m.run (ts.map .ok) = .ok n) : P (read ++ ts) n := by
  induction ts generalizing read m with
  | nil =>
      cases hrun
      rw [List.append_nil]
      exact h
  | cons t ts ih =>
      obtain ⟨next, hfeed, hrest⟩ := exists_feed_of_run hrun
      rw [List.append_cons]
      exact ih (hstep h (Fed.of_eq hfeed)) hrest

/-- What tokens come to: the machine is fed until one fails, and ended if none
does. -/
def outcome (m : Machine α) (tokens : List (Token α)) : Except Fault α :=
  match m.run (tokens.map .ok) with
  | .ok n => n.finish
  | .error failure => .error failure.fault

theorem outcome_nil (m : Machine α) : m.outcome [] = m.finish := rfl

/-- After a token that goes through, what comes of the others is what comes of
all. -/
theorem outcome_cons_of_ok {m n : Machine α} {t : Token α} (h : m.feed t = .ok n)
    (ts : List (Token α)) : m.outcome (t :: ts) = n.outcome ts := by
  unfold outcome
  rw [run_tokens_cons_of_ok h]

theorem outcome_cons_of_error {m : Machine α} {failure : Failure α} {t : Token α}
    (h : m.feed t = .error failure) (ts : List (Token α)) :
    m.outcome (t :: ts) = .error failure.fault := by
  unfold outcome
  rw [run_tokens_cons_of_error h]

/-- Tokens behind some that go through are tokens for the machine those
leave. -/
theorem outcome_append_of_ok {m n : Machine α} {front : List (Token α)}
    (h : m.run (front.map .ok) = .ok n) (back : List (Token α)) :
    m.outcome (front ++ back) = n.outcome back := by
  unfold outcome
  rw [List.map_append, run_append_of_ok h]

/-- A run that fails decides, whatever follows. -/
theorem outcome_append_of_error {m : Machine α} {failure : Failure α} {front : List (Token α)}
    (h : m.run (front.map .ok) = .error failure) (back : List (Token α)) :
    m.outcome (front ++ back) = .error failure.fault := by
  unfold outcome
  rw [List.map_append, run_append_of_error h]

/-- A value takes a run that goes through and an end that does. -/
theorem outcome_eq_ok_iff {m : Machine α} {tokens : List (Token α)} {x : α} :
    m.outcome tokens = .ok x ↔ ∃ n, m.run (tokens.map .ok) = .ok n ∧ n.finish = .ok x := by
  unfold outcome
  cases m.run (tokens.map .ok) with
  | ok n => simp
  | error failure => simp

end Machine

-- ================================================================ a text

/-- What evaluating a text can come to. -/
inductive Evaluated (text : String) : Except Fault (Option Binary64) → Prop
  | blank (hwords : Text.words text = []) : Evaluated text (.ok none)
  /-- The item behind `ts` failed. -/
  | stopped {ts : List (Token Binary64)} {item : Except Fault (Token Binary64)}
      {rest : List (Except Fault (Token Binary64))} {m : Machine Binary64}
      {failure : Failure Binary64} (htokens : tokens text = ts.map .ok ++ item :: rest)
      (hrun : Machine.empty.run (ts.map .ok) = .ok m) (hoffer : m.offer item = .error failure) :
      Evaluated text (.error failure.fault)
  /-- Every word is a token and none failed, but the end did. -/
  | unfinished {ts : List (Token Binary64)} {m : Machine Binary64} {fault : Fault}
      (htokens : tokens text = ts.map .ok) (hne : ts ≠ [])
      (hrun : Machine.empty.run (ts.map .ok) = .ok m) (hfinish : m.finish = .error fault) :
      Evaluated text (.error fault)
  | value {ts : List (Token Binary64)} {m : Machine Binary64} {x : Binary64}
      (htokens : tokens text = ts.map .ok) (hne : ts ≠ [])
      (hrun : Machine.empty.run (ts.map .ok) = .ok m) (hfinish : m.finish = .ok x) :
      Evaluated text (.ok (some x))

/-- These are all of the ways. -/
theorem evaluated (text : String) : Evaluated text (evaluate text) := by
  unfold evaluate
  split
  case isTrue hblank =>
    exact Evaluated.blank (Text.words_eq_nil_iff.2 (Text.trim_eq_empty_iff.1 hblank))
  case isFalse hblank =>
    have hwords : Text.words text ≠ [] := fun h =>
      hblank (Text.trim_eq_empty_iff.2 (Text.words_eq_nil_iff.1 h))
    cases hrun : Machine.empty.run (tokens text) with
    | error failure =>
        obtain ⟨ts, item, rest, m, htokens, hrun, hoffer⟩ :=
          Machine.exists_first_of_run_eq_error hrun
        exact Evaluated.stopped htokens hrun hoffer
    | ok m =>
        obtain ⟨ts, htokens⟩ := Machine.exists_tokens_of_run_eq_ok hrun
        have hne : ts ≠ [] := by
          rintro rfl
          exact hwords (List.map_eq_nil_iff.1 htokens)
        rw [htokens] at hrun
        show Evaluated text (m.finish.map some)
        cases hfinish : m.finish with
        | ok x => exact Evaluated.value htokens hne hrun hfinish
        | error fault => exact Evaluated.unfinished htokens hne hrun hfinish

/-- A text with words is what its run comes to. -/
theorem evaluate_of_ne_nil {text : String} (h : tokens text ≠ []) :
    evaluate text = match Machine.empty.run (tokens text) with
      | .ok m => m.finish.map some
      | .error failure => .error failure.fault := by
  have hblank : ¬ Text.trim text = "" := fun hblank =>
    h (List.map_eq_nil_iff.2 (Text.words_eq_nil_iff.2 (Text.trim_eq_empty_iff.1 hblank)))
  exact if_neg hblank

theorem evaluate_of_run_error {text : String} {failure : Failure Binary64}
    (h : Machine.empty.run (tokens text) = .error failure) :
    evaluate text = .error failure.fault := by
  have hne : tokens text ≠ [] := by
    intro hnil
    rw [hnil] at h
    cases h
  rw [evaluate_of_ne_nil hne, h]

/-- A text that is tokens throughout comes to what they come to. -/
theorem evaluate_of_tokens {text : String} {ts : List (Token Binary64)}
    (htokens : tokens text = ts.map .ok) (hne : ts ≠ []) :
    evaluate text = (Machine.empty.outcome ts).map some := by
  have hsome : tokens text ≠ [] := by
    rw [htokens]
    exact fun hnil => hne (List.map_eq_nil_iff.1 hnil)
  rw [evaluate_of_ne_nil hsome, Machine.outcome, htokens]
  cases Machine.empty.run (ts.map Except.ok) with
  | ok m => rfl
  | error failure => rfl

end Calculator
