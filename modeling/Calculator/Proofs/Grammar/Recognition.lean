/-
Sentences told by their shape.

Balanced tokens without gaps and without surplus operands are a sentence
(`sentence_of_shape`). The derivation is put together from the left. What has
been read since the last open parenthesis is either an expression so far
(`Complete`) or waits for its next factor (`AwaitsFactor`), and which of the
two is told by whether an operand has just ended. An opening parenthesis lays
what has been read aside as a frame; its partner makes a factor of what has
been read since, which completes the frame.
-/
import Calculator.Grammar
import Calculator.Proofs.Token.Count

namespace Calculator

open Token

variable {α : Type}

-- ===================================================== half-read phrases

def Phrase (c : Category) (ts : List (Token α)) : Prop := ∃ t, Derives c ts t

/-- What may stand before a term: nothing, or an expression and its
operator. -/
def AwaitsTerm (ts : List (Token α)) : Prop :=
  ts = [] ∨ ∃ left o, (o = .add ∨ o = .sub) ∧ Phrase .expression left
    ∧ ts = left ++ [.operator o]

/-- What may stand before a factor: what may stand before its term, and then
nothing, or a term and its operator. -/
def AwaitsFactor (ts : List (Token α)) : Prop :=
  ∃ front back, ts = front ++ back ∧ AwaitsTerm front
    ∧ (back = [] ∨ ∃ left o, (o = .mul ∨ o = .div) ∧ Phrase .term left
      ∧ back = left ++ [.operator o])

/-- An expression, as a term and what stands before it. -/
def Complete (ts : List (Token α)) : Prop :=
  ∃ front term, ts = front ++ term ∧ AwaitsTerm front ∧ Phrase .term term

theorem AwaitsFactor.nil : AwaitsFactor ([] : List (Token α)) :=
  ⟨[], [], rfl, Or.inl rfl, Or.inl rfl⟩

theorem Complete.expression {ts : List (Token α)} (h : Complete ts) : Phrase .expression ts := by
  obtain ⟨front, term, rfl, hfront, t, ht⟩ := h
  rcases hfront with rfl | ⟨left, o, ho, ⟨s, hs⟩, rfl⟩
  · exact ⟨t, Derives.ofTerm ht⟩
  · refine ⟨.node o s t, ?_⟩
    rw [List.append_assoc]
    exact Derives.sum ho hs ht

/-- A factor completes what waits for it. -/
theorem AwaitsFactor.append {ts factor : List (Token α)} (h : AwaitsFactor ts)
    (hfactor : Phrase .factor factor) : Complete (ts ++ factor) := by
  obtain ⟨front, back, rfl, hfront, hback⟩ := h
  obtain ⟨t, ht⟩ := hfactor
  refine ⟨front, back ++ factor, by rw [List.append_assoc], hfront, ?_⟩
  rcases hback with rfl | ⟨left, o, ho, ⟨s, hs⟩, rfl⟩
  · exact ⟨t, Derives.ofFactor ht⟩
  · refine ⟨.node o s t, ?_⟩
    rw [List.append_assoc]
    exact Derives.product ho hs ht

/-- An operator makes what is complete wait for a factor: one of the first
line after the whole of it, one of the second after its last term. -/
theorem Complete.operator {ts : List (Token α)} (h : Complete ts) (o : Operator) :
    AwaitsFactor (ts ++ [.operator o]) := by
  have sum (ho : o = .add ∨ o = .sub) : AwaitsFactor (ts ++ [.operator o]) :=
    ⟨ts ++ [.operator o], [], by simp, Or.inr ⟨ts, o, ho, h.expression, rfl⟩, Or.inl rfl⟩
  have product (ho : o = .mul ∨ o = .div) : AwaitsFactor (ts ++ [.operator o]) := by
    obtain ⟨front, term, rfl, hfront, hterm⟩ := h
    exact ⟨front, term ++ [.operator o], by simp, hfront, Or.inr ⟨term, o, ho, hterm, rfl⟩⟩
  cases o with
  | add => exact sum (Or.inl rfl)
  | sub => exact sum (Or.inr rfl)
  | mul => exact product (Or.inl rfl)
  | div => exact product (Or.inr rfl)

-- ============================================================ the reading

/-- What has been read, the frames that were laid aside in front of it. The
last one laid aside comes first. -/
def rejoin : List (List (Token α)) → List (Token α) → List (Token α)
  | [], current => current
  | frame :: frames, current => rejoin frames (frame ++ .opening :: current)

/-- Tokens at the end of the innermost frame are at the end of all of them. -/
theorem rejoin_append (frames : List (List (Token α))) (current more : List (Token α)) :
    rejoin frames (current ++ more) = rejoin frames current ++ more := by
  induction frames generalizing current with
  | nil => rfl
  | cons frame frames ih =>
      rw [rejoin, rejoin, ← ih, List.append_assoc, List.cons_append]

theorem rejoin_cons (frames : List (List (Token α))) (current : List (Token α)) (t : Token α)
    (ts : List (Token α)) :
    rejoin frames current ++ t :: ts = rejoin frames (current ++ [t]) ++ ts := by
  rw [rejoin_append, List.append_assoc, List.singleton_append]

/-- An opening parenthesis begins a frame of its own. -/
theorem rejoin_opening (frames : List (List (Token α))) (current ts : List (Token α)) :
    rejoin frames current ++ .opening :: ts = rejoin (current :: frames) [] ++ ts := by
  rw [rejoin_cons, rejoin]

/-- A closing parenthesis turns the innermost frame into a factor of the one
around it. -/
theorem rejoin_closing (frames : List (List (Token α))) (frame current ts : List (Token α)) :
    rejoin (frame :: frames) current ++ .closing :: ts
      = rejoin frames (frame ++ .opening :: (current ++ [.closing])) ++ ts := by
  rw [rejoin_cons, rejoin]

/-- What has been read since the last open parenthesis, by whether an operand
has just ended. -/
def ReadSoFar (after : Bool) (current : List (Token α)) : Prop :=
  if after then Complete current else AwaitsFactor current

/-- The tokens that are left close the frames and nothing else. -/
structure Closes (frames : Nat) (ts : List (Token α)) : Prop where
  nested : ∀ front, front <+: ts → count .closing front ≤ frames + count .opening front
  closed : frames + count .opening ts = count .closing ts

/-- A token that opens or closes a group changes how many are to be closed. -/
theorem Closes.tail {k n : Nat} {t : Token α} {ts : List (Token α)} (h : Closes k (t :: ts))
    (hn : n + (if t.kind = .closing then 1 else 0) = k + if t.kind = .opening then 1 else 0) :
    Closes n ts := by
  constructor
  · intro front hfront
    have := h.nested (t :: front) ((List.prefix_cons_inj t).2 hfront)
    simp only [count_cons] at this
    omega
  · have := h.closed
    simp only [count_cons] at this
    omega

/-- Reading goes on to a sentence from any point on. -/
theorem sentence_of_reading {ts : List (Token α)} {frames : List (List (Token α))}
    {current : List (Token α)} {after : Bool} (hframes : ∀ frame ∈ frames, AwaitsFactor frame)
    (hcurrent : ReadSoFar after current) (hcloses : Closes frames.length ts)
    (hsurplus : surplus after ts = 0) (hgaps : gaps after ts = 0) :
    Sentence (rejoin frames current ++ ts) := by
  induction ts generalizing frames current after with
  | nil =>
      have hnone : frames = [] := by
        have hclosed := hcloses.closed
        simp only [count_nil] at hclosed
        exact List.length_eq_zero_iff.1 (by omega)
      cases after with
      | false => simp [gaps] at hgaps
      | true =>
          -- no frame is open, so what has been read is the sentence
          subst hnone
          rw [List.append_nil]
          exact Complete.expression hcurrent
  | cons t ts ih =>
      cases t with
      | number value =>
          cases after with
          | true => simp [surplus] at hsurplus
          | false =>
              have hnext : ReadSoFar true (current ++ [.number value]) :=
                AwaitsFactor.append hcurrent ⟨_, Derives.number value⟩
              have hsurplus' : surplus true ts = 0 := by simpa [surplus] using hsurplus
              rw [rejoin_cons]
              exact ih hframes hnext (hcloses.tail rfl) hsurplus' hgaps
      | operator o =>
          cases after with
          | false => simp [gaps] at hgaps
          | true =>
              have hnext : ReadSoFar false (current ++ [.operator o]) :=
                Complete.operator hcurrent o
              have hgaps' : gaps false ts = 0 := by simpa [gaps] using hgaps
              rw [rejoin_cons]
              exact ih hframes hnext (hcloses.tail rfl) hsurplus hgaps'
      | opening =>
          cases after with
          | true => simp [surplus] at hsurplus
          | false =>
              have hframes' : ∀ frame ∈ current :: frames, AwaitsFactor frame :=
                List.forall_mem_cons.2 ⟨hcurrent, hframes⟩
              have hnext : ReadSoFar false ([] : List (Token α)) := AwaitsFactor.nil
              have hsurplus' : surplus false ts = 0 := by simpa [surplus] using hsurplus
              rw [rejoin_opening]
              exact ih hframes' hnext (hcloses.tail rfl) hsurplus' hgaps
      | closing =>
          cases after with
          | false => simp [gaps] at hgaps
          | true =>
              cases frames with
              | nil =>
                  -- nothing was opened that this parenthesis could close
                  have := hcloses.nested [.closing] (by simp)
                  simp at this
              | cons frame frames =>
                  obtain ⟨hframe, hframes⟩ := List.forall_mem_cons.1 hframes
                  obtain ⟨t, ht⟩ := Complete.expression hcurrent
                  have hnext : ReadSoFar true (frame ++ .opening :: (current ++ [.closing])) :=
                    hframe.append ⟨t, Derives.group ht⟩
                  have hgaps' : gaps true ts = 0 := by simpa [gaps] using hgaps
                  rw [rejoin_closing]
                  exact ih hframes hnext (hcloses.tail rfl) hsurplus hgaps'

-- ============================================================== sentences

/-- Balanced tokens without surplus operands and gaps are a sentence. -/
theorem sentence_of_shape {ts : List (Token α)} (hbalanced : Balanced ts)
    (hsurplus : surplus false ts = 0) (hgaps : gaps false ts = 0) : Sentence ts := by
  have hnone : ∀ frame ∈ ([] : List (List (Token α))), AwaitsFactor frame := by simp
  have hstart : ReadSoFar false ([] : List (Token α)) := AwaitsFactor.nil
  have hcloses : Closes 0 ts := by
    refine ⟨fun front hfront => ?_, ?_⟩
    · rw [Nat.zero_add]
      exact hbalanced.nested front hfront
    · rw [Nat.zero_add]
      exact hbalanced.closed
  exact sentence_of_reading hnone hstart hcloses hsurplus hgaps

/-- A phrase that is not behind an operand has no surplus. -/
theorem Derives.surplus_append {c : Category} {ts : List (Token α)} {t : Tree α}
    (h : Derives c ts t) (rest : List (Token α)) :
    surplus false (ts ++ rest) = surplus true rest := by
  induction h generalizing rest with
  | number value => simp [surplus]
  | group _ ih => simp [surplus, ih]
  | ofFactor _ ih => exact ih rest
  | ofTerm _ ih => exact ih rest
  | product _ _ _ ihs iht => simp [surplus, ihs, iht]
  | sum _ _ _ ihs iht => simp [surplus, ihs, iht]

/-- No sentence has one operand right behind another. -/
theorem Sentence.surplus_eq_zero {ts : List (Token α)} (h : Sentence ts) :
    surplus false ts = 0 := by
  obtain ⟨t, ht⟩ := h
  have := ht.surplus_append []
  rwa [List.append_nil] at this

end Calculator
