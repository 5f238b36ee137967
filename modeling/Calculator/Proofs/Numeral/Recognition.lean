/-
The words that are read are the words that the grammar spells.

Reading cuts a text into parts and loses nothing: the parts put together again
are the text (`spell_read`, `takeWhile` and `dropWhile`). And each part is what
it should be, since the reader tests it before it takes it. So what is read is a
numeral that the grammar admits, spelled by the text it was read from. Together
with the other direction, that every numeral is read from its own word, this
says which texts are read, and as what (`read?_eq_some_iff`).
-/
import Calculator.Proofs.Numeral.Reading

namespace Calculator

/-- Reading a sign loses nothing of the text. -/
theorem Sign.spell_read (text : List Char) :
    Sign.spell (Sign.read text).1 ++ (Sign.read text).2 = text := by
  unfold Sign.read
  split
  case h_1 => rfl
  case h_2 => rfl
  case h_3 => rfl

namespace Numeral

variable {text : List Char}

theorem isDigit_of_mem_takeWhile {c : Char} (h : c ∈ text.takeWhile Char.isDigit) :
    c.isDigit = true :=
  List.all_eq_true.1 List.all_takeWhile c h

/-- What is read as an exponent is well formed, and was written like this. -/
theorem Exponent.of_read? {exponent : Option Exponent} (h : Exponent.read? text = some exponent) :
    (∀ e ∈ exponent, e.WellFormed) ∧ Exponent.spell exponent = text := by
  cases text with
  | nil =>
      cases h
      exact ⟨by simp, rfl⟩
  | cons marker rest =>
      unfold Exponent.read? at h
      dsimp only at h
      split at h
      case isTrue hparts =>
        cases h
        obtain ⟨hmarker, hne, hdigits⟩ := hparts
        refine ⟨?_, congrArg (marker :: ·) (Sign.spell_read rest)⟩
        intro e he
        cases he
        exact ⟨hmarker, hne, List.all_eq_true.1 hdigits⟩
      case isFalse => cases h

theorem Magnitude.of_readDecimal? {m : Magnitude} (h : readDecimal? text = some m) :
    m.WellFormed ∧ m.spell = text := by
  have hsplit := List.takeWhile_append_dropWhile (p := Char.isDigit) (l := text)
  unfold readDecimal? at h
  dsimp only at h
  split at h
  case h_1 rest hrest =>
    -- a point, and the digits behind it
    have hbehind := List.takeWhile_append_dropWhile (p := Char.isDigit) (l := rest)
    split at h
    case isTrue => cases h
    case isFalse hne =>
      obtain ⟨exponent, hread, rfl⟩ := Option.map_eq_some_iff.1 h
      obtain ⟨hexponent, hspell⟩ := Exponent.of_read? hread
      refine ⟨⟨?_, ?_, hexponent⟩, ?_⟩
      · intro c hc
        rcases List.mem_append.1 hc with hc | hc
        · exact isDigit_of_mem_takeWhile hc
        · exact isDigit_of_mem_takeWhile hc
      · intro hnil
        exact hne (List.append_eq_nil_iff.1 hnil)
      · rw [Magnitude.spell, hspell, hbehind, ← hrest, hsplit]
  case h_2 =>
    split at h
    case isTrue => cases h
    case isFalse hne =>
      obtain ⟨exponent, hread, rfl⟩ := Option.map_eq_some_iff.1 h
      obtain ⟨hexponent, hspell⟩ := Exponent.of_read? hread
      refine ⟨⟨?_, ?_, hexponent⟩, ?_⟩
      · intro c hc
        rw [Option.getD_none, List.append_nil] at hc
        exact isDigit_of_mem_takeWhile hc
      · rwa [Option.getD_none, List.append_nil]
      · rw [Magnitude.spell, hspell, hsplit]

theorem Magnitude.of_read? {m : Magnitude} (h : read? text = some m) :
    m.WellFormed ∧ m.spell = text := by
  unfold read? at h
  split at h
  case isTrue hname =>
    cases h
    exact ⟨hname, rfl⟩
  case isFalse =>
    split at h
    case isTrue hname =>
      cases h
      exact ⟨hname, rfl⟩
    case isFalse => exact of_readDecimal? h

/-- Only well-formed numerals are read, each from its own word. -/
theorem of_read? {n : Numeral} (h : read? text = some n) : n.WellFormed ∧ n.spell = text := by
  have hsign := Sign.spell_read text
  unfold read? at h
  generalize Sign.read text = parts at h hsign
  obtain ⟨sign, rest⟩ := parts
  obtain ⟨m, hread, rfl⟩ := Option.map_eq_some_iff.1 h
  obtain ⟨hm, hspell⟩ := Magnitude.of_read? hread
  refine ⟨hm, ?_⟩
  rw [spell, hspell]
  exact hsign

/-- A text is read as a numeral exactly if the numeral is one of the grammar and
the text is its word. -/
theorem read?_eq_some_iff {n : Numeral} : read? text = some n ↔ n.WellFormed ∧ n.spell = text := by
  constructor
  · exact of_read?
  · rintro ⟨h, rfl⟩
    exact read?_spell h

end Numeral

/-- The number words are the words of numerals. -/
theorem Binary64.read?_eq_some_iff {word : String} {x : Binary64} :
    read? word = some x ↔ ∃ n : Numeral, n.WellFormed ∧ word = String.ofList n.spell ∧ n.value = x := by
  rw [read?, Option.map_eq_some_iff]
  refine exists_congr fun n => ?_
  rw [Numeral.read?_eq_some_iff, and_assoc]
  refine and_congr_right fun _ => and_congr_left fun _ => ?_
  rw [← String.toList_inj, String.toList_ofList, eq_comm]

end Calculator
