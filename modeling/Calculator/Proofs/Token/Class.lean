/-
The classes of words are told apart by their words alone.

A token is what a word comes to exactly if the word writes it, and since a word
comes to one thing at most, no word writes two tokens. So no word is taken by
two readers. Whichever of them is tried first, the one that takes the word
takes it in the end, and a word that none of them takes is refused.
-/
import Calculator.Binary64.Bits
import Calculator.Proofs.Numeral.Recognition
import Calculator.Proofs.Token.Word
import Calculator.Token.Class

namespace Calculator.Token

variable {word : String} {t : Token Binary64}

/-- A word is read as the token that it writes. -/
theorem ofWord_of_writes (h : Writes word t) : ofWord word = .ok t := by
  cases h with
  | opening => rfl
  | closing => rfl
  | operator o => cases o <;> rfl
  | number h => exact ofWord_of_read? (Binary64.read?_eq_some_iff.2 ⟨_, h, rfl, rfl⟩)

theorem writes_of_ofWord (h : ofWord word = .ok t) : Writes word t := by
  have hspells := spells word
  rw [h] at hspells
  cases hspells with
  | opening hword => exact hword ▸ Writes.opening
  | closing hword => exact hword ▸ Writes.closing
  | operator hword => exact hword ▸ Writes.operator _
  | number hread =>
      obtain ⟨n, hn, rfl, rfl⟩ := Binary64.read?_eq_some_iff.1 hread
      exact Writes.number hn

/-- A word comes to a token exactly if it writes it. -/
theorem ofWord_eq_ok_iff : ofWord word = .ok t ↔ Writes word t :=
  ⟨writes_of_ofWord, ofWord_of_writes⟩

/-- A word that writes no token is quoted, and no other word is. -/
theorem ofWord_eq_error_iff {fault : Fault} :
    ofWord word = .error fault ↔ fault = .unknownWord word ∧ ∀ t, ¬ Writes word t := by
  constructor
  · intro h
    refine ⟨?_, fun t ht => ?_⟩
    · have hspells := spells word
      rw [h] at hspells
      cases hspells with
      | unknown => rfl
    · rw [ofWord_of_writes ht] at h
      cases h
  · rintro ⟨rfl, hnone⟩
    have hspells := spells word
    generalize hitem : ofWord word = item at hspells
    cases hspells with
    | unknown => rfl
    | opening => exact absurd (writes_of_ofWord hitem) (hnone _)
    | closing => exact absurd (writes_of_ofWord hitem) (hnone _)
    | operator => exact absurd (writes_of_ofWord hitem) (hnone _)
    | number => exact absurd (writes_of_ofWord hitem) (hnone _)

-- ============================================================== the readers

variable {reader other : String → Option (Token Binary64)}

/-- The first reader knows two words. -/
theorem parenthesis?_eq_some (h : parenthesis? word = some t) :
    word = "(" ∧ t = .opening ∨ word = ")" ∧ t = .closing := by
  unfold parenthesis? at h
  split at h
  case isTrue hword =>
    cases h
    exact Or.inl ⟨hword, rfl⟩
  case isFalse =>
    split at h
    case isTrue hword =>
      cases h
      exact Or.inr ⟨hword, rfl⟩
    case isFalse => cases h

theorem operator?_eq_some (h : operator? word = some t) :
    ∃ o : Operator, word = String.singleton o.symbol ∧ t = .operator o := by
  obtain ⟨o, hsymbol, rfl⟩ := Option.map_eq_some_iff.1 h
  refine ⟨o, ?_, rfl⟩
  rw [← String.toList_inj, Operator.ofSymbol?_eq_some_iff.1 hsymbol, String.toList_singleton]

theorem number?_eq_some (h : number? word = some t) :
    ∃ x, Binary64.read? word = some x ∧ t = .number x := by
  obtain ⟨x, hread, rfl⟩ := Option.map_eq_some_iff.1 h
  exact ⟨x, hread, rfl⟩

theorem mem_readers (h : reader ∈ readers) :
    reader = parenthesis? ∨ reader = operator? ∨ reader = number? := by
  simpa [readers] using h

/-- What a reader takes a word for, the word writes. -/
theorem writes_of_reader (hreader : reader ∈ readers) (h : reader word = some t) :
    Writes word t := by
  rcases mem_readers hreader with rfl | rfl | rfl
  · rcases parenthesis?_eq_some h with ⟨rfl, rfl⟩ | ⟨rfl, rfl⟩
    · exact Writes.opening
    · exact Writes.closing
  · obtain ⟨o, rfl, rfl⟩ := operator?_eq_some h
    exact Writes.operator o
  · obtain ⟨x, hread, rfl⟩ := number?_eq_some h
    exact writes_of_ofWord (ofWord_of_read? hread)

/-- Each word that writes a token has its reader. -/
theorem exists_reader (h : Writes word t) : ∃ reader ∈ readers, reader word = some t := by
  cases h with
  | opening => exact ⟨parenthesis?, by simp [readers], rfl⟩
  | closing => exact ⟨parenthesis?, by simp [readers], rfl⟩
  | operator o => exact ⟨operator?, by simp [readers], by cases o <;> rfl⟩
  | @number n h =>
      refine ⟨number?, by simp [readers], ?_⟩
      rw [number?, Binary64.read?_eq_some_iff.2 ⟨n, h, rfl, rfl⟩, Option.map_some]

/-- Readers of different tokens never take the same word. -/
theorem apart_of_ne (hreader : reader ∈ readers) (hother : other ∈ readers)
    (hne : ∀ t, reader word = some t → other word ≠ some t) :
    reader word = none ∨ other word = none := by
  cases hr : reader word with
  | none => exact Or.inl rfl
  | some t =>
      cases ho : other word with
      | none => exact Or.inr rfl
      | some u =>
          have ht := ofWord_of_writes (writes_of_reader hreader hr)
          have hu := ofWord_of_writes (writes_of_reader hother ho)
          rw [ht] at hu
          cases hu
          exact absurd ho (hne t hr)

/-- No word is taken by two readers. -/
theorem readers_apart (word : String) :
    readers.Pairwise fun r s => r word = none ∨ s word = none := by
  have hmem : parenthesis? ∈ readers ∧ operator? ∈ readers ∧ number? ∈ readers := by simp [readers]
  have hparenOperator : parenthesis? word = none ∨ operator? word = none := by
    refine apart_of_ne hmem.1 hmem.2.1 fun t ht ho => ?_
    obtain ⟨o, -, rfl⟩ := operator?_eq_some ho
    simpa using parenthesis?_eq_some ht
  have hparenNumber : parenthesis? word = none ∨ number? word = none := by
    refine apart_of_ne hmem.1 hmem.2.2 fun t ht hx => ?_
    obtain ⟨x, -, rfl⟩ := number?_eq_some hx
    simpa using parenthesis?_eq_some ht
  have hoperatorNumber : operator? word = none ∨ number? word = none := by
    refine apart_of_ne hmem.2.1 hmem.2.2 fun t ht hx => ?_
    obtain ⟨o, -, rfl⟩ := operator?_eq_some ht
    obtain ⟨x, -, h⟩ := number?_eq_some hx
    cases h
  simp [readers, hparenOperator, hparenNumber, hoperatorNumber]

/-- The order of the readers is of no account. -/
theorem ofWordBy_eq {order : List (String → Option (Token Binary64))} (horder : order.Perm readers)
    (word : String) : ofWordBy order word = ofWord word := by
  have hmem : ∀ reader, reader ∈ order ↔ reader ∈ readers := fun _ => horder.mem_iff
  unfold ofWordBy
  cases hfound : order.findSome? fun reader => reader word with
  | some t =>
      obtain ⟨reader, hreader, ht⟩ := List.exists_of_findSome?_eq_some hfound
      exact (ofWord_of_writes (writes_of_reader ((hmem reader).1 hreader) ht)).symm
  | none =>
      refine (ofWord_eq_error_iff.2 ⟨rfl, fun t ht => ?_⟩).symm
      obtain ⟨reader, hreader, hread⟩ := exists_reader ht
      have hnone := List.findSome?_eq_none_iff.1 hfound reader ((hmem reader).2 hreader)
      rw [hread] at hnone
      cases hnone

-- ================================================================ the classes

/-- A word comes to a token exactly if it writes it, and to a fault exactly if
it writes none; the fault quotes it. The classes have no word in common, and in
whatever order they are tried, a word comes to the same. -/
theorem ofWord_classifies (word : String) :
    (∀ t, ofWord word = .ok t ↔ Writes word t)
      ∧ (∀ fault, ofWord word = .error fault ↔ fault = .unknownWord word ∧ ∀ t, ¬ Writes word t)
      ∧ (readers.Pairwise fun r s => r word = none ∨ s word = none)
      ∧ ∀ order : List (String → Option (Token Binary64)), order.Perm readers →
          ofWordBy order word = ofWord word :=
  ⟨fun _ => ofWord_eq_ok_iff, fun _ => ofWord_eq_error_iff, readers_apart word,
    fun _ horder => ofWordBy_eq horder word⟩

/-- A sign in front of a fraction makes no operator, also where operators are
tried before parentheses and numbers before both. -/
theorem ofWord_classifies_signed_fraction :
    [number?, operator?, parenthesis?].Perm readers
      ∧ ofWordBy [number?, operator?, parenthesis?] "+.5E-3" = ofWord "+.5E-3"
      ∧ Writes "+.5E-3" (.number (.ofBits 0x3f40624dd2f1a9fc#64)) := by
  have horder : [number?, operator?, parenthesis?].Perm readers := (List.reverse_perm _).symm
  have hread : Binary64.read? "+.5E-3" = some (.ofBits 0x3f40624dd2f1a9fc#64) := by decide +kernel
  obtain ⟨htokens, -, -, hany⟩ := ofWord_classifies "+.5E-3"
  exact ⟨horder, hany _ horder, (htokens _).1 (ofWord_of_read? hread)⟩

end Calculator.Token
