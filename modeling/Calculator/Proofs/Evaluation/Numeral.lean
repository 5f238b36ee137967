/-
A numeral by itself is an expression.

Number words are written between plus and `z` in ASCII. Blanks and
parentheses lie outside of that stretch, the ones of other scripts too, so
nothing splits a number word. What it is read as is the classifier's affair;
no parenthesis and no operator is a number word. A single number passes the
machine as it is.
-/
import Calculator.Proofs.Machine.Run
import Calculator.Proofs.Numeral.Reading
import Calculator.Proofs.Token.Word

namespace Calculator

namespace Numeral

-- ================================================================ characters

/-- The characters from plus to `z`, which number words are written in. -/
def IsWritten (c : Char) : Prop := '+'.toNat ≤ c.toNat ∧ c.toNat ≤ 'z'.toNat

instance (c : Char) : Decidable (IsWritten c) := inferInstanceAs (Decidable (_ ∧ _))

/-- No numeral has a character at which a text is cut. -/
theorem IsWritten.isOrdinary {c : Char} (h : IsWritten c) : Text.isOrdinary c = true := by
  have hfirst : 43 ≤ c.toNat := h.1
  have hlast : c.toNat ≤ 122 := h.2
  have hblank : Text.isBlank c = false := by
    have hranges : ∀ range ∈ Text.blankRanges, range.2 < 43 ∨ 122 < range.1 := by decide
    rw [Text.isBlank, List.any_eq_false]
    intro range hrange
    have houtside := hranges range hrange
    simp only [Bool.and_eq_true, decide_eq_true_eq]
    omega
  have hparenthesis : Text.isParenthesis c = false := by
    have hne {d : Char} (hd : d.toNat < 43) : c ≠ d := by
      intro hcd
      subst hcd
      omega
    rw [Text.isParenthesis, Bool.or_eq_false_iff]
    exact ⟨decide_eq_false (hne (by decide)), decide_eq_false (hne (by decide))⟩
  rw [Text.isOrdinary, hblank, hparenthesis]
  rfl

theorem isWritten_of_isDigit {c : Char} (h : c.isDigit = true) : IsWritten c := by
  simp only [Char.isDigit, Bool.and_eq_true, decide_eq_true_eq] at h
  exact ⟨Nat.le_trans (by decide) h.1, Nat.le_trans h.2 (by decide)⟩

/-- A letter of either case is in the stretch. -/
theorem isWritten_of_toLower {c : Char} (h : c.toLower.isLower = true) : IsWritten c := by
  by_cases hupper : c.val ≥ 'A'.val ∧ c.val ≤ 'Z'.val
  · exact ⟨Nat.le_trans (by decide) hupper.1, Nat.le_trans hupper.2 (by decide)⟩
  · have hlower : c.toLower = c := dif_neg hupper
    rw [hlower] at h
    have hrange : (decide (c.val ≥ 'a'.val) && decide (c.val ≤ 'z'.val)) = true := h
    rw [Bool.and_eq_true, decide_eq_true_eq, decide_eq_true_eq] at hrange
    exact ⟨Nat.le_trans (by decide) hrange.1, hrange.2⟩

/-- A name may be written in letters of both cases. -/
theorem isWritten_of_mem_name {names : List (List Char)} {name : List Char} {c : Char}
    (hnames : names.flatten.all Char.isLower = true) (hname : name.map Char.toLower ∈ names)
    (hc : c ∈ name) : IsWritten c := by
  have hletter : c.toLower ∈ names.flatten :=
    List.mem_flatten.2 ⟨_, hname, List.mem_map.2 ⟨c, hc, rfl⟩⟩
  exact isWritten_of_toLower (List.all_eq_true.1 hnames _ hletter)

theorem isWritten_of_mem_sign {sign : Option Sign} {c : Char} (h : c ∈ Sign.spell sign) :
    IsWritten c := by
  match sign with
  | none => cases h
  | some .plus =>
      rw [List.mem_singleton.1 h]
      decide
  | some .minus =>
      rw [List.mem_singleton.1 h]
      decide

/-- An exponent is written with a letter, a sign and digits. -/
theorem Exponent.isWritten_of_mem_spell {exponent : Option Exponent}
    (h : ∀ e ∈ exponent, e.WellFormed) {c : Char} (hc : c ∈ Exponent.spell exponent) :
    IsWritten c := by
  cases exponent with
  | none => cases hc
  | some e =>
      obtain ⟨hmarker, -, hdigits⟩ := h e rfl
      rcases List.mem_cons.1 hc with hc | hc
      · rw [hc]
        rcases hmarker with hmarker | hmarker
        · rw [hmarker]
          decide
        · rw [hmarker]
          decide
      · rcases List.mem_append.1 hc with hc | hc
        · exact isWritten_of_mem_sign hc
        · exact isWritten_of_isDigit (hdigits c hc)

/-- A magnitude is a name, or digits with a point and an exponent. -/
theorem Magnitude.isWritten_of_mem_spell {m : Magnitude} (h : m.WellFormed) {c : Char}
    (hc : c ∈ m.spell) : IsWritten c := by
  cases m with
  | infinity name => exact isWritten_of_mem_name rfl h hc
  | nan name => exact isWritten_of_mem_name rfl (List.mem_singleton.2 h) hc
  | decimal whole fraction exponent =>
      obtain ⟨hdigits, -, hexponent⟩ := h
      have hdigit : ∀ c ∈ whole ++ fraction.getD [], IsWritten c := fun c hc =>
        isWritten_of_isDigit (hdigits c hc)
      cases fraction with
      | none =>
          rcases List.mem_append.1 hc with hc | hc
          · exact hdigit c (List.mem_append_left _ hc)
          · exact Exponent.isWritten_of_mem_spell hexponent hc
      | some fraction =>
          rcases List.mem_append.1 hc with hc | hc
          · exact hdigit c (List.mem_append_left _ hc)
          · rcases List.mem_cons.1 hc with hc | hc
            · rw [hc]
              decide
            · rcases List.mem_append.1 hc with hc | hc
              · exact hdigit c (List.mem_append_right _ hc)
              · exact Exponent.isWritten_of_mem_spell hexponent hc

-- ====================================================================== words

variable {n : Numeral}

theorem spell_ne_nil (h : n.WellFormed) : n.spell ≠ [] := by
  obtain ⟨c, rest, hspell, -⟩ := Magnitude.exists_begins h
  rw [spell, hspell]
  exact List.append_ne_nil_of_right_ne_nil _ (List.cons_ne_nil _ _)

/-- A number word is one word. -/
theorem words_spell (h : n.WellFormed) :
    Text.words (String.ofList n.spell) = [String.ofList n.spell] := by
  refine Text.words_of_isOrdinary (spell_ne_nil h) fun c hc => IsWritten.isOrdinary ?_
  rcases List.mem_append.1 hc with hc | hc
  · exact isWritten_of_mem_sign hc
  · exact Magnitude.isWritten_of_mem_spell h hc

/-- A numeral as a word is the token of its number. -/
theorem ofWord_spell (h : n.WellFormed) :
    Token.ofWord (String.ofList n.spell) = .ok (.number n.value) := by
  refine Token.ofWord_of_read? ?_
  rw [Binary64.read?, String.toList_ofList, read?_spell h, Option.map_some]

/-- A number word evaluates to its number. -/
theorem evaluate_spell (h : n.WellFormed) :
    evaluate (String.ofList n.spell) = .ok (some n.value) := by
  have htokens : tokens (String.ofList n.spell) = [Token.number n.value].map .ok := by
    rw [tokens, words_spell h, List.map_singleton, ofWord_spell h]
    rfl
  rw [evaluate_of_tokens htokens (List.cons_ne_nil _ _)]
  rfl

end Numeral

end Calculator
