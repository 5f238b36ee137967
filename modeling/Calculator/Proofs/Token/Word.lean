/-
What a word can be.

`Spells` lists the five things that a word can turn out to be, each with what
the word looks like then. A parenthesis and an operator are written in one way
only, and a word without a meaning is quoted as it stands.
-/
import Calculator.Token

namespace Calculator.Token

/-- What a word can turn out to be. -/
inductive Spells (word : String) : Except Fault (Token Binary64) → Prop
  | opening (hword : word = "(") : Spells word (.ok .opening)
  | closing (hword : word = ")") : Spells word (.ok .closing)
  | operator {o : Operator} (hword : word = String.singleton o.symbol) :
      Spells word (.ok (.operator o))
  | number {x : Binary64} (hread : Binary64.read? word = some x) : Spells word (.ok (.number x))
  | unknown (hread : Binary64.read? word = none) : Spells word (.error (.unknownWord word))

/-- What a word is read as tells how it is spelled. -/
theorem spells (word : String) : Spells word (ofWord word) := by
  unfold ofWord
  split
  case isTrue hword => exact Spells.opening hword
  case isFalse =>
    split
    case isTrue hword => exact Spells.closing hword
    case isFalse =>
      cases hsymbol : Operator.ofSymbol? word with
      | some o =>
          have hlist := Operator.ofSymbol?_eq_some_iff.1 hsymbol
          have hword : word = String.singleton o.symbol := by
            rw [← String.toList_inj, hlist, String.toList_singleton]
          exact Spells.operator hword
      | none =>
          cases hread : Binary64.read? word with
          | some x => exact Spells.number hread
          | none => exact Spells.unknown hread

/-- A number word is no parenthesis and no operator. -/
theorem ofWord_of_read? {word : String} {x : Binary64} (h : Binary64.read? word = some x) :
    ofWord word = .ok (.number x) := by
  have hspells := spells word
  generalize ofWord word = item at hspells
  cases hspells with
  | opening hword =>
      subst hword
      cases h
  | closing hword =>
      subst hword
      cases h
  | @operator o hword =>
      subst hword
      cases o <;> cases h
  | number hread =>
      rw [h] at hread
      cases hread
      rfl
  | unknown hread =>
      rw [h] at hread
      cases hread

end Calculator.Token
