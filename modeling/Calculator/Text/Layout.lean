/-
Layouts: the texts that write down given words.

A text has words and, in front of them, between them and behind them, gaps:
runs of blanks of any kind and any length. Any gap may be empty but one
between two words that both are no parenthesis, since without it the two would
be one word. `Layout` is a choice of words and gaps that keeps this rule, and
`Layout.text` is the text written so.
-/
import Calculator.Text.Words
import Mathlib.Data.List.Chain

namespace Calculator.Text

/-- What can stand as a word: a parenthesis, or ordinary characters, at least
one of them. -/
inductive IsWord : String → Prop
  | opening : IsWord "("
  | closing : IsWord ")"
  | ordinary {word : String} (hne : word ≠ "")
    (hordinary : ∀ c ∈ word.toList, isOrdinary c = true) : IsWord word

/-- A word and the gap behind it. -/
structure Spaced where
  word : String
  gap : String
  deriving DecidableEq, Repr

/-- A word and the one that follows it are kept apart: by a gap, or because
one of them is a parenthesis. -/
def Spaced.Apart (s next : Spaced) : Prop :=
  s.gap ≠ "" ∨ s.word ∈ ["(", ")"] ∨ next.word ∈ ["(", ")"]

instance (s next : Spaced) : Decidable (s.Apart next) := inferInstanceAs (Decidable (_ ∨ _))

def Spaced.write : List Spaced → String
  | [] => ""
  | s :: rest => s.word ++ (s.gap ++ write rest)

/-- Words in a text: the gap in front of them all, and each of them with the
gap behind it. -/
structure Layout where
  lead : String
  spaced : List Spaced
  blank_lead : isBlankText lead = true
  blank_gap : ∀ s ∈ spaced, isBlankText s.gap = true
  isWord : ∀ s ∈ spaced, IsWord s.word
  apart : spaced.IsChain Spaced.Apart

namespace Layout

def words (l : Layout) : List String := l.spaced.map Spaced.word

def text (l : Layout) : String := l.lead ++ Spaced.write l.spaced

end Layout

end Calculator.Text
