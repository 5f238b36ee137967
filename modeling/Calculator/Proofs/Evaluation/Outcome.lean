/-
Every outcome tells the truth about its text.

The machine raises its faults in three drains and at the end, and which of
them comes first depends on when deferred operators happen to be applied. All
the same each outcome can be read as a statement about the words alone, and
`Tells` is the table of these statements: what may be said of the words, of
their classes and of their numbers, once the outcome is known.

The counting is the ledger's. A run up to the failing word leaves the books of
the words before it, whatever that word does to the stacks.
-/
import Calculator.Proofs.Machine.Ledger
import Calculator.Proofs.Token.Word

namespace Calculator

open Token

/-- What an outcome tells about the words of the text.

- no result: there are none;
- a value: they are tokens, balanced, with one number more than operators;
- an unknown word: it is one of them and no token, and those before it are
  tokens and nested;
- an unopened group: one of them is a closing parenthesis, and those before it
  are tokens and balanced, so it is the first to close more than was opened;
- an unclosed group: they are tokens and nested, and more open than close;
- a missing operand: in some beginning of tokens stands the operator, and the
  numbers are no more than the operators;
- not one value: they are tokens and balanced, and there are two numbers more
  than operators, or neither numbers nor operators. -/
def Tells (words : List String) : Except Fault (Option Binary64) → Prop
  | .ok none => words = []
  | .ok (some _) => words ≠ [] ∧ ∃ ts : List (Token Binary64),
      words.map ofWord = ts.map .ok ∧ Balanced ts ∧ count .number ts = count .operator ts + 1
  | .error (.unknownWord word) => ofWord word = .error (.unknownWord word)
      ∧ ∃ before after, ∃ ts : List (Token Binary64),
        words = before ++ word :: after ∧ before.map ofWord = ts.map .ok ∧ Nested ts
  | .error .unopenedGroup => ∃ before after, ∃ ts : List (Token Binary64),
      words = before ++ ")" :: after ∧ before.map ofWord = ts.map .ok ∧ Balanced ts
  | .error .unclosedGroup => ∃ ts : List (Token Binary64),
      words.map ofWord = ts.map .ok ∧ Nested ts ∧ count .closing ts < count .opening ts
  | .error (.missingOperand o) => ∃ before after, ∃ ts : List (Token Binary64),
      words = before ++ after ∧ before.map ofWord = ts.map .ok
        ∧ String.singleton o.symbol ∈ before ∧ count .number ts ≤ count .operator ts
  | .error .notOneValue => words ≠ [] ∧ ∃ ts : List (Token Binary64),
      words.map ofWord = ts.map .ok ∧ Balanced ts
        ∧ (count .operator ts + 2 ≤ count .number ts
          ∨ count .number ts = 0 ∧ count .operator ts = 0)

-- ================================================================== words

/-- The word behind an item, with the words around it. -/
theorem exists_word_of_tokens {text : String} {ts : List (Token Binary64)}
    {item : Except Fault (Token Binary64)} {rest : List (Except Fault (Token Binary64))}
    (h : tokens text = ts.map .ok ++ item :: rest) :
    ∃ before word after, Text.words text = before ++ word :: after
      ∧ before.map ofWord = ts.map .ok ∧ ofWord word = item := by
  obtain ⟨before, behind, hwords, hbefore, hbehind⟩ := List.map_eq_append_iff.1 h
  obtain ⟨word, after, rfl, hword, -⟩ := List.map_eq_cons_iff.1 hbehind
  exact ⟨before, word, after, hwords, hbefore, hword⟩

/-- An operator among the tokens is written among the words. -/
theorem symbol_mem_words {words : List String} {ts : List (Token Binary64)} {o : Operator}
    (h : words.map ofWord = ts.map .ok) (ho : .operator o ∈ ts) :
    String.singleton o.symbol ∈ words := by
  have hitem : Except.ok (.operator o) ∈ words.map ofWord := by
    rw [h]
    exact List.mem_map.2 ⟨_, ho, rfl⟩
  obtain ⟨word, hmem, hword⟩ := List.mem_map.1 hitem
  have hspells := spells word
  rw [hword] at hspells
  cases hspells with
  | operator hsymbol => rwa [hsymbol] at hmem

theorem words_ne_nil {text : String} {ts : List (Token Binary64)}
    (h : tokens text = ts.map .ok) (hne : ts ≠ []) : Text.words text ≠ [] := by
  intro hnil
  unfold tokens at h
  rw [hnil] at h
  exact hne (List.map_eq_nil_iff.1 h.symm)

-- =============================================================== outcomes

/-- Where an item fails, the fault tells of the words up to that one. -/
theorem tells_stopped {text : String} {ts : List (Token Binary64)}
    {item : Except Fault (Token Binary64)} {rest : List (Except Fault (Token Binary64))}
    {m : Machine Binary64} {failure : Failure Binary64}
    (htokens : tokens text = ts.map .ok ++ item :: rest)
    (hrun : Machine.empty.run (ts.map .ok) = .ok m) (hoffer : m.offer item = .error failure) :
    Tells (Text.words text) (.error failure.fault) := by
  obtain ⟨before, word, after, hwords, hbefore, hword⟩ := exists_word_of_tokens htokens
  have hledger := Machine.ledger_of_run hrun
  have hspells := spells word
  rw [hword] at hspells
  match item with
  | .error fault =>
      cases hoffer
      cases hspells with
      | unknown hread => exact ⟨hword, before, after, ts, hwords, hbefore, hledger.nested⟩
  | .ok t =>
      have hfeed : m.feed t = .error failure := hoffer
      cases Machine.Fed.of_eq hfeed with
      | unopened hstack hleft =>
          cases hspells with
          | closing hclosing =>
              subst hclosing
              exact ⟨before, after, ts, hwords, hbefore, hledger.balanced hstack⟩
      | short hstack hdue hleft hfew =>
          obtain ⟨hmem, hcount⟩ := hledger.short hstack hleft hfew
          exact ⟨before, word :: after, ts, hwords, hbefore, symbol_mem_words hbefore hmem, hcount⟩

/-- Where the end fails, the fault tells of all the words. -/
theorem tells_unfinished {text : String} {ts : List (Token Binary64)} {m : Machine Binary64}
    {fault : Fault} (htokens : tokens text = ts.map .ok) (hne : ts ≠ [])
    (hrun : Machine.empty.run (ts.map .ok) = .ok m) (hfinish : m.finish = .error fault) :
    Tells (Text.words text) (.error fault) := by
  have hledger := Machine.ledger_of_run hrun
  cases Machine.Finished.of_eq hfinish with
  | notOne hstack hleft hlength =>
      obtain ⟨hcount, hused⟩ := hledger.length_left hstack hleft
      refine ⟨words_ne_nil htokens hne, ts, htokens, hledger.balanced hstack, ?_⟩
      by_cases hzero : count .operator ts = 0
      · omega
      · have hpos := List.length_pos_iff.2 (hused (by omega))
        omega
  | unclosed hstack hleft =>
      have hgroups := hledger.groups
      rw [hstack, count_group_operators, List.count_cons_self] at hgroups
      exact ⟨ts, htokens, hledger.nested, by omega⟩
  | short hstack hleft hfew =>
      obtain ⟨hmem, hcount⟩ := hledger.short hstack hleft hfew
      refine ⟨Text.words text, [], ts, by simp, htokens, ?_, hcount⟩
      exact symbol_mem_words htokens hmem

/-- What evaluating a text comes to tells the truth about its words. -/
theorem evaluate_tells (text : String) : Tells (Text.words text) (evaluate text) := by
  have h := evaluated text
  generalize evaluate text = result at h
  cases h with
  | blank hwords => exact hwords
  | stopped htokens hrun hoffer => exact tells_stopped htokens hrun hoffer
  | unfinished htokens hne hrun hfinish => exact tells_unfinished htokens hne hrun hfinish
  | @value ts m x htokens hne hrun hfinish =>
      obtain ⟨hbalanced, hcount⟩ := Machine.balanced_of_value hrun hfinish
      exact ⟨words_ne_nil htokens hne, ts, htokens, hbalanced, hcount⟩

end Calculator
