/-
A numeral is read from its own word.

Reading goes from left to right and never looks ahead by more than one
character, so each part of a numeral has to be kept apart from the next by the
character that begins it. A sign is no digit, no point and no letter of a
name. A point and the letter of an exponent are no digits, which ends a row of
digits. A decimal begins with a digit or a point, which begins no name. These
are the only facts about characters here; the rest is one lemma for each part,
put together to `read?_spell`.
-/
import Calculator.Numeral

namespace Calculator

-- ==================================================================== signs

/-- No sign is read at the front of the text. -/
def Unsigned (text : List Char) : Prop := ∀ c ∈ text.head?, c ≠ '+' ∧ c ≠ '-'

theorem unsigned_cons {c : Char} {rest : List Char} (hplus : c ≠ '+') (hminus : c ≠ '-') :
    Unsigned (c :: rest) := by
  intro d hd
  cases hd
  exact ⟨hplus, hminus⟩

/-- A text without a sign in front is left whole. -/
theorem Sign.read_of_unsigned {text : List Char} (h : Unsigned text) :
    Sign.read text = (none, text) := by
  match text with
  | [] => rfl
  | c :: rest =>
      obtain ⟨hplus, hminus⟩ := h c rfl
      unfold Sign.read
      split
      case h_1 heq => exact absurd (List.cons.inj heq).1 hplus
      case h_2 heq => exact absurd (List.cons.inj heq).1 hminus
      case h_3 => rfl

/-- A sign that is written is read back, and where none is written none is
read. -/
theorem Sign.read_spell (sign : Option Sign) {rest : List Char} (h : Unsigned rest) :
    Sign.read (Sign.spell sign ++ rest) = (sign, rest) := by
  cases sign with
  | none => exact Sign.read_of_unsigned h
  | some s => cases s <;> rfl

namespace Numeral

-- =================================================================== digits

theorem ne_of_isDigit {c d : Char} (hc : c.isDigit = true) (hd : d.isDigit = false) : c ≠ d := by
  intro hcd
  rw [← hcd, hc] at hd
  cases hd

/-- A row of digits does not begin with a sign. -/
theorem unsigned_of_digits {digits : List Char} (h : ∀ c ∈ digits, c.isDigit = true) :
    Unsigned digits := by
  match digits with
  | [] => exact fun c hc => nomatch hc
  | c :: rest =>
      have hc := h c (List.mem_cons_self ..)
      exact unsigned_cons (ne_of_isDigit hc rfl) (ne_of_isDigit hc rfl)

/-- The text does not go on with a digit. -/
def NoDigit (text : List Char) : Prop := ∀ c ∈ text.head?, c.isDigit = false

/-- A row of digits is taken whole, and no more than the row. -/
theorem takeWhile_digits {digits rest : List Char} (hdigits : ∀ c ∈ digits, c.isDigit = true)
    (hrest : NoDigit rest) : (digits ++ rest).takeWhile Char.isDigit = digits := by
  rw [List.takeWhile_append_of_pos hdigits]
  match rest with
  | [] => exact List.append_nil digits
  | c :: rest => rw [List.takeWhile_cons_of_neg (by simp [hrest c rfl]), List.append_nil]

theorem dropWhile_digits {digits rest : List Char} (hdigits : ∀ c ∈ digits, c.isDigit = true)
    (hrest : NoDigit rest) : (digits ++ rest).dropWhile Char.isDigit = rest := by
  rw [List.dropWhile_append_of_pos hdigits]
  match rest with
  | [] => rfl
  | c :: rest => rw [List.dropWhile_cons_of_neg (by simp [hrest c rfl])]

-- ================================================================= exponents

/-- An exponent is read from its own letters, and no letters are no exponent.
-/
theorem Exponent.read?_spell {exponent : Option Exponent} (h : ∀ e ∈ exponent, e.WellFormed) :
    Exponent.read? (Exponent.spell exponent) = some exponent := by
  cases exponent with
  | none => rfl
  | some e =>
      obtain ⟨hmarker, hne, hdigits⟩ := h e rfl
      have hread := Sign.read_spell e.sign (unsigned_of_digits hdigits)
      have hall : e.digits.all Char.isDigit = true := List.all_eq_true.2 hdigits
      simp only [Exponent.spell, Exponent.read?, hread]
      rw [if_pos ⟨hmarker, hne, hall⟩]

/-- An exponent begins with its letter. -/
theorem Exponent.head_spell {exponent : Option Exponent} (h : ∀ e ∈ exponent, e.WellFormed)
    {c : Char} (hc : c ∈ (Exponent.spell exponent).head?) : c = 'e' ∨ c = 'E' := by
  cases exponent with
  | none => cases hc
  | some e =>
      cases hc
      exact (h e rfl).1

/-- An exponent ends the row of digits in front of it. -/
theorem Exponent.noDigit_spell {exponent : Option Exponent} (h : ∀ e ∈ exponent, e.WellFormed) :
    NoDigit (Exponent.spell exponent) := by
  intro c hc
  rcases Exponent.head_spell h hc with rfl | rfl <;> rfl

-- ================================================================== decimals

/-- The digits of a decimal, its point and its exponent are told apart as they
were put together. -/
theorem Magnitude.readDecimal?_spell {whole : List Char} {fraction : Option (List Char)}
    {exponent : Option Exponent} (h : (decimal whole fraction exponent).WellFormed) :
    readDecimal? (decimal whole fraction exponent).spell
      = some (decimal whole fraction exponent) := by
  obtain ⟨hdigits, hne, hexponent⟩ := h
  have hwhole : ∀ c ∈ whole, c.isDigit = true := fun c hc =>
    hdigits c (List.mem_append_left _ hc)
  have hbehind := Exponent.noDigit_spell hexponent
  cases fraction with
  | none =>
      have hne' : whole ≠ [] := by simpa using hne
      unfold readDecimal?
      simp only [Magnitude.spell, takeWhile_digits hwhole hbehind, dropWhile_digits hwhole hbehind]
      split
      case h_1 rest heq =>
        -- no point was written, and an exponent does not begin with one
        have hpoint := Exponent.head_spell hexponent (by rw [heq]; rfl)
        simp at hpoint
      case h_2 => rw [if_neg hne', Exponent.read?_spell hexponent, Option.map_some]
  | some fraction =>
      have hfraction : ∀ c ∈ fraction, c.isDigit = true := fun c hc =>
        hdigits c (List.mem_append_right _ hc)
      have hpoint : NoDigit ('.' :: (fraction ++ Exponent.spell exponent)) := by
        intro c hc
        cases hc
        rfl
      have hne' : ¬ (whole = [] ∧ fraction = []) := by
        rintro ⟨rfl, rfl⟩
        exact hne rfl
      unfold readDecimal?
      simp only [Magnitude.spell, takeWhile_digits hwhole hpoint, dropWhile_digits hwhole hpoint,
        takeWhile_digits hfraction hbehind, dropWhile_digits hfraction hbehind]
      rw [if_neg hne', Exponent.read?_spell hexponent, Option.map_some]

-- ================================================================ magnitudes

theorem ne_of_toLower {c d letter : Char} (hc : c.toLower = letter) (hd : d.toLower ≠ letter) :
    c ≠ d := by
  intro hcd
  rw [hcd] at hc
  exact hd hc

/-- What a magnitude begins with: the letter of a name, a digit or a point. -/
inductive Begins : Magnitude → Char → Prop
  | infinity {name : List Char} {c : Char} (h : c.toLower = 'i') : Begins (.infinity name) c
  | nan {name : List Char} {c : Char} (h : c.toLower = 'n') : Begins (.nan name) c
  | digit {whole : List Char} {fraction : Option (List Char)} {exponent : Option Exponent}
    {c : Char} (h : c.isDigit = true) : Begins (.decimal whole fraction exponent) c
  | point {whole : List Char} {fraction : Option (List Char)} {exponent : Option Exponent} :
    Begins (.decimal whole fraction exponent) '.'

/-- Every magnitude begins with a character that tells what kind it is. -/
theorem Magnitude.exists_begins {m : Magnitude} (h : m.WellFormed) :
    ∃ c rest, m.spell = c :: rest ∧ Begins m c := by
  cases m with
  | infinity name =>
      match name with
      | [] => simp [WellFormed, infinityNames] at h
      | c :: rest =>
          refine ⟨c, rest, rfl, Begins.infinity ?_⟩
          simp only [WellFormed, infinityNames, List.map_cons, List.mem_cons, List.cons.injEq] at h
          rcases h with h | h | h
          · exact h.1
          · exact h.1
          · cases h
  | nan name =>
      match name with
      | [] => simp [WellFormed, nanName] at h
      | c :: rest =>
          refine ⟨c, rest, rfl, Begins.nan ?_⟩
          exact (List.cons.inj h).1
  | decimal whole fraction exponent =>
      obtain ⟨hdigits, hne, -⟩ := h
      match whole, fraction with
      | c :: whole, none => exact ⟨c, _, rfl, Begins.digit (hdigits c (by simp))⟩
      | c :: whole, some fraction => exact ⟨c, _, rfl, Begins.digit (hdigits c (by simp))⟩
      | [], some fraction => exact ⟨'.', _, rfl, Begins.point⟩
      | [], none => exact absurd rfl hne

/-- None of these characters is a sign. -/
theorem Begins.unsigned {m : Magnitude} {c : Char} (h : Begins m c) (rest : List Char) :
    Unsigned (c :: rest) := by
  cases h with
  | infinity h => exact unsigned_cons (ne_of_toLower h (by decide)) (ne_of_toLower h (by decide))
  | nan h => exact unsigned_cons (ne_of_toLower h (by decide)) (ne_of_toLower h (by decide))
  | digit h => exact unsigned_cons (ne_of_isDigit h rfl) (ne_of_isDigit h rfl)
  | point => exact unsigned_cons (by decide) (by decide)

/-- Neither a digit nor the point begins a name. -/
theorem Begins.toLower {whole : List Char} {fraction : Option (List Char)}
    {exponent : Option Exponent} {c : Char} (h : Begins (.decimal whole fraction exponent) c) :
    c.toLower ≠ 'i' ∧ c.toLower ≠ 'n' := by
  cases h with
  | digit h =>
      have hlower : c.toLower = c := by
        simp only [Char.isDigit, Bool.and_eq_true, decide_eq_true_eq] at h
        refine dif_neg ?_
        rintro ⟨hle, -⟩
        exact absurd (UInt32.le_trans hle h.2) (by decide)
      rw [hlower]
      exact ⟨ne_of_isDigit h rfl, ne_of_isDigit h rfl⟩
  | point => decide

/-- A magnitude is read from its own word: the names do not begin as a decimal
does. -/
theorem Magnitude.read?_spell {m : Magnitude} (h : m.WellFormed) : read? m.spell = some m := by
  unfold read?
  cases m with
  | infinity name => exact if_pos h
  | nan name =>
      have hlower : name.map Char.toLower = nanName := h
      have hother : name.map Char.toLower ∉ infinityNames := by
        rw [hlower]
        decide
      exact (if_neg hother).trans (if_pos hlower)
  | decimal whole fraction exponent =>
      obtain ⟨c, rest, hspell, hbegins⟩ := exists_begins h
      obtain ⟨hi, hn⟩ := hbegins.toLower
      have hnames : (c :: rest).map Char.toLower ∉ infinityNames
          ∧ (c :: rest).map Char.toLower ≠ nanName := by
        simp [infinityNames, nanName, hi, hn]
      rw [hspell, if_neg hnames.1, if_neg hnames.2, ← hspell]
      exact readDecimal?_spell h

-- ================================================================== numerals

/-- A numeral is read from its own word, with all its parts as they were
written. -/
theorem read?_spell {n : Numeral} (h : n.WellFormed) : read? n.spell = some n := by
  obtain ⟨c, rest, hspell, hbegins⟩ := Magnitude.exists_begins h
  have hunsigned : Unsigned n.magnitude.spell := hspell ▸ hbegins.unsigned rest
  unfold read?
  rw [spell, Sign.read_spell n.sign hunsigned]
  simp only [Magnitude.read?_spell h, Option.map_some]

end Numeral

end Calculator
