/-
Quoting an expression is optional.

The arguments are read from the left. What has been read leaves a mode, and the
rest is read in that mode as if nothing had stood in front. `AsksFor` follows
the reading step by step, so an induction on the arguments tells exactly which
of them make the program calculate, and what (`readArguments_eq_calculate_iff`).

What is written then depends on the mode and on the joined words alone
(`run_of_asksFor`). To quote words is to join them beforehand, which joining
does not notice. It remains that the joined text is read as a word again. Behind
the separator everything is. Without one the first word decides, and joining
more words to a word makes no option of it.
-/
import Calculator.Binary64.Bits
import Calculator.Proofs.Box.Legible
import Calculator.Proofs.CommandLine.Spelling

namespace Calculator.CommandLine

variable {plain plain' : Bool} {arguments words : List String} {word : String}

-- ======================================================= reading the arguments

/-- Behind the plain option no flag leaves the request open. -/
theorem readFlags_true_eq_inr_iff {fs : List Flag} :
    readFlags true fs = .inr plain' ↔ fs = [] ∧ plain' = true := by
  cases fs with
  | nil => simp [readFlags, eq_comm]
  | cons flag fs => cases flag <;> simp [readFlags]

/-- The one flag that leaves a mode is the plain option, given once. -/
theorem readFlags_eq_inr_iff {fs : List Flag} :
    readFlags plain fs = .inr plain'
      ↔ fs = [] ∧ plain' = plain ∨ fs = [.plain] ∧ plain = false ∧ plain' = true := by
  cases fs with
  | nil => simp [readFlags, eq_comm]
  | cons flag fs =>
      cases flag with
      | help => simp [readFlags]
      | version => simp [readFlags]
      | plain => cases plain <;> simp [readFlags, readFlags_true_eq_inr_iff]

/-- Flags alone do not make the program calculate. -/
theorem readFlags_ne_calculate (fs : List Flag) :
    readFlags plain fs ≠ .inl (.calculate plain' words) := by
  induction fs generalizing plain with
  | nil => simp [readFlags]
  | cons flag fs ih =>
      cases flag with
      | help => simp [readFlags]
      | version => simp [readFlags]
      | plain =>
          cases plain with
          | true => simp [readFlags]
          | false => exact ih

/-- Arguments that ask for a calculation are read as one. -/
theorem readArguments_of_asksFor (h : AsksFor plain arguments plain' words) :
    readArguments plain arguments = .calculate plain' words := by
  induction h with
  | nothing plain => rfl
  | separated plain words => rfl
  | begun plain words hword => rw [readArguments, ofSpelling_eq_word_iff.2 hword]
  | behindPlain hoption _ ih =>
      rcases hoption with rfl | rfl
      · exact ih
      · exact ih

/-- The plain option alone has two spellings. -/
theorem eq_of_spells_plain {option : String} (h : Argument.Spells option (.flags [.plain])) :
    option = "-p" ∨ option = "--plain" := by
  cases h with
  | letters => exact Or.inl rfl
  | name => exact Or.inr rfl

/-- Nothing else is read as a calculation. -/
theorem asksFor_of_readArguments (h : readArguments plain arguments = .calculate plain' words) :
    AsksFor plain arguments plain' words := by
  induction arguments generalizing plain with
  | nil =>
      cases h
      exact AsksFor.nothing _
  | cons argument arguments ih =>
      unfold readArguments at h
      split at h
      case h_1 hread =>
        cases h
        cases spells_of_ofSpelling hread (by simp)
        exact AsksFor.separated _ _
      case h_2 hread =>
        cases h
        exact AsksFor.begun _ _ (ofSpelling_eq_word_iff.1 hread)
      case h_3 => cases h
      case h_4 fs hread =>
        have hspells := spells_of_ofSpelling hread (by simp)
        split at h
        case h_1 hflags =>
          rw [h] at hflags
          exact absurd hflags (readFlags_ne_calculate fs)
        case h_2 hflags =>
          rcases readFlags_eq_inr_iff.1 hflags with ⟨rfl, -⟩ | ⟨rfl, rfl, rfl⟩
          · -- no spelling stands for no flags
            cases hspells with
            | letters hne => exact absurd rfl hne
          · exact AsksFor.behindPlain (eq_of_spells_plain hspells) (ih h)

/-- The arguments that make the program calculate are exactly those that ask
for it. -/
theorem readArguments_eq_calculate_iff :
    readArguments plain arguments = .calculate plain' words
      ↔ AsksFor plain arguments plain' words :=
  ⟨asksFor_of_readArguments, readArguments_of_asksFor⟩

-- ============================================================= what is written

/-- What is written depends on the mode and on the joined words. -/
theorem run_of_asksFor (h : AsksFor false arguments plain (word :: words)) :
    run arguments = print (calculationText plain (" ".intercalate (word :: words))) := by
  rw [run, readArguments_eq_calculate_iff.2 h]
  rfl

/-- Words joined beforehand are calculated the same. -/
theorem run_of_asksFor_joined
    (h : AsksFor false arguments plain [" ".intercalate (word :: words)]) :
    run arguments = print (calculationText plain (" ".intercalate (word :: words))) := by
  rw [run_of_asksFor h, String.intercalate_singleton]

/-- Joining words to a word makes no option of it. -/
theorem not_isOption_intercalate (h : ¬ IsOption word) (words : List String) :
    ¬ IsOption (" ".intercalate (word :: words)) := by
  cases words with
  | nil => rwa [String.intercalate_singleton]
  | cons next words =>
      rw [String.intercalate_cons_cons]
      exact fun hoption => h hoption.of_append_space

theorem calculationText_of_error {expression : String} {fault : Fault}
    (h : evaluate expression = .error fault) (plain : Bool) :
    calculationText plain expression = "Error: " ++ fault.message := by
  rw [calculationText, h]

theorem calculationText_of_ok {expression : String} {result : Option Binary64}
    (h : evaluate expression = .ok result) (plain : Bool) : calculationText plain expression
      = if plain then resultText result else Box.draw expression (resultText result) := by
  rw [calculationText, h]

-- ==================================================================== quoting

/-- Behind the separator words may be joined beforehand, in either mode, and
so may they without it if the first one is no option. All of this succeeds. A
fault is written the same in both modes; of a result the plain mode writes the
text that is shown in the box. -/
theorem quoting_optional (word : String) (words : List String) :
    let expression := " ".intercalate (word :: words)
    let boxed := run ("--" :: word :: words)
    let bare := run ("-p" :: "--" :: word :: words)
    boxed = run ["--", expression]
      ∧ bare = run ["-p", "--", expression]
      ∧ (¬ IsOption word → run (word :: words) = boxed ∧ run [expression] = boxed)
      ∧ boxed.exitCode = 0
      ∧ bare.exitCode = 0
      ∧ (∀ fault, evaluate expression = .error fault →
        boxed.stdout = "Error: " ++ fault.message ++ "\n" ∧ bare.stdout = boxed.stdout)
      ∧ ∀ result, evaluate expression = .ok result →
        boxed.stdout = Box.draw expression (resultText result) ++ "\n"
          ∧ Box.shownResult (Box.draw expression (resultText result)) = some (resultText result)
          ∧ bare.stdout = resultText result ++ "\n" := by
  intro expression boxed bare
  have hboxed : boxed = print (calculationText false expression) :=
    run_of_asksFor (AsksFor.separated false (word :: words))
  have hbare : bare = print (calculationText true expression) :=
    run_of_asksFor (AsksFor.behindPlain (Or.inl rfl) (AsksFor.separated true (word :: words)))
  have hboxedJoined : run ["--", expression] = print (calculationText false expression) :=
    run_of_asksFor_joined (AsksFor.separated false [expression])
  have hbareJoined : run ["-p", "--", expression] = print (calculationText true expression) :=
    run_of_asksFor_joined
      (AsksFor.behindPlain (Or.inl rfl) (AsksFor.separated true [expression]))
  rw [hboxed, hbare, hboxedJoined, hbareJoined]
  refine ⟨rfl, rfl, fun hword => ⟨?_, ?_⟩, rfl, rfl, fun fault h => ?_, fun result h => ?_⟩
  · exact run_of_asksFor (AsksFor.begun false words hword)
  · exact run_of_asksFor_joined (AsksFor.begun false [] (not_isOption_intercalate hword words))
  · rw [calculationText_of_error h, calculationText_of_error h]
    exact ⟨rfl, rfl⟩
  · rw [calculationText_of_ok h, calculationText_of_ok h]
    exact ⟨rfl, Box.shownResult_draw expression (Box.legible_resultText result), rfl⟩

/-- Words with hyphens, one of which would be an option in front of them, and
words with a result. -/
theorem quoting_optional_hyphens :
    let minusSix := Binary64.ofBits 0xC018000000000000#64
    ¬ IsOption "-2"
      ∧ run ["-2", "-", "-p"] = run ["-2 - -p"]
      ∧ evaluate "-2 - -p" = .error (.unknownWord "-p")
      ∧ (run ["-2", "-", "-p"]).stdout = "Error: invalid token: -p\n"
      ∧ evaluate "-2 * 3" = .ok (some minusSix)
      ∧ (run ["-p", "--", "-2", "*", "3"]).stdout = "-6\n" := by
  intro minusSix
  have hword : ¬ IsOption "-2" := by decide
  have hfault : evaluate "-2 - -p" = .error (.unknownWord "-p") := by decide +kernel
  have hresult : evaluate "-2 * 3" = .ok (some minusSix) := by decide +kernel
  have htext : resultText (some minusSix) = "-6" := by decide +kernel
  obtain ⟨-, -, hjoined, -, -, herror, -⟩ := quoting_optional "-2" ["-", "-p"]
  obtain ⟨-, -, -, -, -, -, hok⟩ := quoting_optional "-2" ["*", "3"]
  obtain ⟨hwords, hquoted⟩ := hjoined hword
  obtain ⟨-, -, hbare⟩ := hok _ hresult
  refine ⟨hword, hwords.trans hquoted.symm, hfault, ?_, hresult, ?_⟩
  · rw [hwords]
    exact (herror _ hfault).1
  · rw [hbare, htext]
    rfl

/-- A flag with a value is refused, and not only the plain option: `--help=x`
is neither one of the flags without a value, alone or in a cluster, nor the
separator, nor `--plain` with a value, and still it is not taken for a word. -/
theorem help_with_value_is_refused :
    "--help=x" ∉ ["-p", "--plain", "-h", "--help", "-V", "--version", "--"]
      ∧ (∀ value, "--help=x" ≠ "--plain=" ++ value)
      ∧ (∀ fs, "--help=x" ≠ cluster fs)
      ∧ run ["--help=x"] = ⟨"", 2⟩
      ∧ run ["--help=x"] ≠ run ["--", "--help=x"] := by
  refine ⟨by simp, fun value h => ?_, fun fs h => ?_, by decide, by decide +kernel⟩
  · simpa using congrArg String.toList h
  · have hequals : '=' ∈ (cluster fs).toList := h ▸ by decide
    exact not_mem_cluster (by simp) (fun flag => by cases flag <;> simp [Flag.letter]) hequals

end Calculator.CommandLine
