/-
Options are told from words by their spelling.

What was put together as an option is read as that option
(`ofSpelling_of_spells`), and what is read as an option was put together as it
(`spells_of_ofSpelling`). So the words are the arguments that spell no option,
whether they have a hyphen in front or not.

Neither the letters nor the names of flags have a space among them. A space in
an option therefore belongs to its value, and what stands in front of the space
is an option already (`IsOption.of_append_space`): putting more words behind a
word makes no option of it.
-/
import Calculator.CommandLine.Spelling
import Mathlib.Data.List.TakeWhile

namespace Calculator.CommandLine

variable {spelling : String} {argument : Argument}

-- ===================================================================== flags

/-- A letter is read as the flag that it is the letter of. -/
theorem Flag.ofLetter?_eq_some_iff {c : Char} {flag : Flag} :
    Flag.ofLetter? c = some flag ↔ c = flag.letter := by
  unfold Flag.ofLetter?
  split <;> cases flag <;> simp_all [Flag.letter]

theorem Flag.ofName?_eq_some_iff {name : List Char} {flag : Flag} :
    Flag.ofName? name = some flag ↔ name = flag.name.toList := by
  unfold Flag.ofName?
  split_ifs <;> cases flag <;> simp_all [Flag.name]

/-- Letters are read as the flags whose letters they are. -/
theorem mapM_ofLetter?_eq_some_iff {letters : List Char} {fs : List Flag} :
    letters.mapM Flag.ofLetter? = some fs ↔ letters = fs.map Flag.letter := by
  induction letters generalizing fs with
  | nil => cases fs <;> simp
  | cons c letters ih =>
      simp only [List.mapM_cons, Option.bind_eq_bind, Option.bind_eq_some_iff, Option.pure_def,
        Option.some.injEq, Flag.ofLetter?_eq_some_iff, ih]
      constructor
      · rintro ⟨flag, rfl, fs, rfl, rfl⟩
        rfl
      · intro h
        obtain ⟨flag, fs, rfl, hc, hletters⟩ := List.map_eq_cons_iff.1 h.symm
        exact ⟨flag, hc.symm, fs, hletters.symm, rfl⟩

/-- Behind one hyphen no letter looks like a second one. -/
theorem Flag.letter_ne_hyphen (flag : Flag) : flag.letter ≠ '-' := by
  cases flag <;> simp [Flag.letter]

/-- The names hold no equals sign, so the first one ends them. -/
theorem Flag.equals_not_mem_name (flag : Flag) : '=' ∉ flag.name.toList := by
  cases flag <;> simp [Flag.name]

-- ============================================================ taking it apart

theorem toList_hyphens (name : String) : ("--" ++ name).toList = '-' :: '-' :: name.toList :=
  String.toList_append

theorem ofSpelling_hyphens (name : String) :
    Argument.ofSpelling ("--" ++ name) = Argument.ofLong name.toList := by
  rw [Argument.ofSpelling, toList_hyphens]
  rfl

/-- Letters that share a hyphen are read as their flags, in their order. -/
theorem ofSpelling_cluster {fs : List Flag} (h : fs ≠ []) :
    Argument.ofSpelling (cluster fs) = .flags fs := by
  obtain ⟨flag, rest, rfl⟩ := List.exists_cons_of_ne_nil h
  have hread : ((flag :: rest).map Flag.letter).mapM Flag.ofLetter? = some (flag :: rest) :=
    mapM_ofLetter?_eq_some_iff.2 rfl
  rw [Argument.ofSpelling, cluster, String.toList_ofList]
  rw [List.map_cons] at hread ⊢
  split
  case h_1 heq => exact absurd (List.cons.inj (List.cons.inj heq).2).1 flag.letter_ne_hyphen
  case h_2 heq =>
    cases heq
    rw [hread]
  case h_3 hno => exact absurd rfl (hno _ _)

/-- The name of a long option reaches up to the first equals sign. -/
theorem ofLong_of_takeWhile {name : List Char} {flag : Flag}
    (h : name.takeWhile (· ≠ '=') = flag.name.toList) :
    Argument.ofLong name = if '=' ∈ name then .flagWithValue else .flags [flag] := by
  have hne : name ≠ [] := by
    rintro rfl
    cases flag <;> simp [Flag.name] at h
  rw [Argument.ofLong, if_neg hne, Flag.ofName?_eq_some_iff.2 h]

/-- What stands in front of the first equals sign is taken for the name. -/
theorem takeWhile_before_equals {front : List Char} (h : '=' ∉ front) (value : List Char) :
    (front ++ '=' :: value).takeWhile (· ≠ '=') = front := by
  have hfront : ∀ c ∈ front, decide (c ≠ '=') = true := fun c hc =>
    decide_eq_true fun heq => h (heq ▸ hc)
  rw [List.takeWhile_append_of_pos hfront, List.takeWhile_cons_of_neg (by decide), List.append_nil]

theorem takeWhile_without_equals {name : List Char} (h : '=' ∉ name) :
    name.takeWhile (· ≠ '=') = name :=
  List.takeWhile_eq_self_iff.2 fun _ hc => decide_eq_true fun heq => h (heq ▸ hc)

theorem toList_equals (front value : String) :
    (front ++ "=" ++ value).toList = front.toList ++ '=' :: value.toList := by
  rw [String.append_assoc, String.toList_append, String.toList_append]
  rfl

/-- What is put together as an option is read as that option. -/
theorem ofSpelling_of_spells (h : Argument.Spells spelling argument) :
    Argument.ofSpelling spelling = argument := by
  cases h with
  | letters hne => exact ofSpelling_cluster hne
  | name flag =>
      have hequals := flag.equals_not_mem_name
      rw [ofSpelling_hyphens, ofLong_of_takeWhile (takeWhile_without_equals hequals),
        if_neg hequals]
  | nameWithValue flag value =>
      have htake := takeWhile_before_equals flag.equals_not_mem_name value.toList
      rw [ofSpelling_hyphens, toList_equals, ofLong_of_takeWhile htake, if_pos (by simp)]
  | separator => rfl

-- ============================================================ putting together

/-- What is taken for a flag behind two hyphens is its name, or its name and a
value. -/
theorem spells_of_takeWhile {name : String} {flag : Flag}
    (h : name.toList.takeWhile (· ≠ '=') = flag.name.toList) :
    Argument.Spells ("--" ++ name)
      (if '=' ∈ name.toList then .flagWithValue else .flags [flag]) := by
  by_cases hequals : '=' ∈ name.toList
  · obtain ⟨front, value, hsplit, hfront⟩ := List.eq_append_cons_of_mem hequals
    rw [hsplit, takeWhile_before_equals hfront] at h
    have hname : name = flag.name ++ "=" ++ String.ofList value := by
      rw [← String.toList_inj, toList_equals, String.toList_ofList, hsplit, h]
    rw [if_pos hequals, hname]
    exact Argument.Spells.nameWithValue flag _
  · rw [takeWhile_without_equals hequals, String.toList_inj] at h
    rw [if_neg hequals, h]
    exact Argument.Spells.name flag

/-- A long option has been put together from its name, and perhaps a value. -/
theorem spells_of_ofLong {name : String} (h : Argument.ofLong name.toList = argument)
    (hne : argument ≠ .word) : Argument.Spells ("--" ++ name) argument := by
  unfold Argument.ofLong at h
  split at h
  case isTrue hnil =>
    rw [← h, String.toList_eq_nil_iff.1 hnil]
    exact Argument.Spells.separator
  case isFalse =>
    split at h
    case h_1 flag hread =>
      rw [← h]
      exact spells_of_takeWhile (Flag.ofName?_eq_some_iff.1 hread)
    case h_2 => exact absurd h.symm hne

/-- What is read as anything but a word has been put together as such. -/
theorem spells_of_ofSpelling (h : Argument.ofSpelling spelling = argument)
    (hne : argument ≠ .word) : Argument.Spells spelling argument := by
  unfold Argument.ofSpelling at h
  split at h
  case h_1 name heq =>
    have hspelling : "--" ++ String.ofList name = spelling := by
      rw [← String.toList_inj, heq, toList_hyphens, String.toList_ofList]
    rw [← String.toList_ofList (l := name)] at h
    exact hspelling ▸ spells_of_ofLong h hne
  case h_2 letter letters heq =>
    split at h
    case h_2 => exact absurd h.symm hne
    case h_1 fs hread =>
      have hletters := mapM_ofLetter?_eq_some_iff.1 hread
      have hspelling : cluster fs = spelling := by
        rw [← String.toList_inj, heq, cluster, String.toList_ofList, hletters]
      subst h
      refine hspelling ▸ Argument.Spells.letters ?_
      rintro rfl
      cases hletters
  case h_3 => exact absurd h.symm hne

/-- Words are what no option spells. -/
theorem ofSpelling_eq_word_iff : Argument.ofSpelling spelling = .word ↔ ¬ IsOption spelling := by
  constructor
  · rintro hword ⟨argument, h⟩
    rw [ofSpelling_of_spells h] at hword
    subst hword
    cases h
  · intro h
    by_contra hne
    exact h ⟨_, spells_of_ofSpelling rfl hne⟩

instance (spelling : String) : Decidable (IsOption spelling) :=
  decidable_of_iff (Argument.ofSpelling spelling ≠ .word)
    ((not_congr ofSpelling_eq_word_iff).trans not_not)

-- A hyphen in front is not enough.
example : IsOption "-pV" ∧ IsOption "--help=" ∧ ¬ IsOption "-2" ∧ ¬ IsOption "-" := by decide

-- ====================================================================== spaces

/-- A cluster has its hyphen and letters, and no other character. -/
theorem not_mem_cluster {c : Char} {fs : List Flag} (hhyphen : c ≠ '-')
    (hletter : ∀ flag : Flag, flag.letter ≠ c) : c ∉ (cluster fs).toList := by
  simp [cluster, hhyphen, hletter]

/-- There are no spaces in options with one hyphen. -/
theorem space_not_mem_cluster (fs : List Flag) : ' ' ∉ (cluster fs).toList :=
  not_mem_cluster (by simp) fun flag => by cases flag <;> simp [Flag.letter]

theorem space_not_mem_name (flag : Flag) : ' ' ∉ ("--" ++ (flag.name ++ "=")).toList := by
  cases flag <;> simp [Flag.name]

/-- What stands in front of a space in an option is an option. -/
theorem IsOption.of_append_space {text more : String} (h : IsOption (text ++ " " ++ more)) :
    IsOption text := by
  have hspace : ' ' ∈ (text ++ " " ++ more).toList := by simp
  have hbefore : text.toList ++ [' '] <+: (text ++ " " ++ more).toList :=
    ⟨more.toList, by simp⟩
  obtain ⟨argument, h⟩ := h
  generalize text ++ " " ++ more = whole at h hspace hbefore
  cases h with
  | letters => exact absurd hspace (space_not_mem_cluster _)
  | separator => exact absurd hspace (by decide)
  | name flag =>
      refine absurd ?_ (space_not_mem_name flag)
      rw [← String.append_assoc, String.toList_append]
      exact List.mem_append_left _ hspace
  | nameWithValue flag value =>
      -- The option up to its equals sign and the text up to the space are both beginnings of the
      -- whole. The space is not in the former, so that is a beginning of the text.
      have hname : ("--" ++ (flag.name ++ "=")).toList
          <+: ("--" ++ (flag.name ++ "=" ++ value)).toList := ⟨value.toList, by simp⟩
      rcases List.prefix_or_prefix_of_prefix hname hbefore with hshort | hlong
      · rcases List.prefix_concat_iff.1 hshort with heq | ⟨value', htext⟩
        · exact absurd (heq ▸ List.mem_concat_self) (space_not_mem_name flag)
        · have hoption : text = "--" ++ (flag.name ++ "=" ++ String.ofList value') := by
            rw [← String.toList_inj, ← htext]
            simp
          exact ⟨_, hoption ▸ Argument.Spells.nameWithValue flag _⟩
      · exact absurd (hlong.subset List.mem_concat_self) (space_not_mem_name flag)

end Calculator.CommandLine
