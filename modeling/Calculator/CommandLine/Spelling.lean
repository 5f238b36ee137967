/-
How options are spelled, and what may stand in front of an expression.

`Argument.ofSpelling` takes an argument apart to tell what it is. Here the
arguments are put together: every flag has a letter and a name, letters share
one hyphen, a name stands behind two, and a value behind an equals sign. What
cannot be put together like this is a word.

In the same way `AsksFor` puts together the arguments that make the program
calculate. The expression stands behind the separator, or begins with a word,
and in front of it there is room for the plain option and for nothing else.
-/
import Calculator.CommandLine

namespace Calculator.CommandLine

-- ================================================================== spellings

/-- The letter that stands for the flag behind one hyphen. -/
def Flag.letter : Flag → Char
  | plain => 'p'
  | help => 'h'
  | version => 'V'

/-- The name that stands for the flag behind two hyphens. -/
def Flag.name : Flag → String
  | plain => "plain"
  | help => "help"
  | version => "version"

/-- Flags by their letters, behind one hyphen. -/
def cluster (flags : List Flag) : String := String.ofList ('-' :: flags.map Flag.letter)

/-- The spelling is one of the argument's. Words have none. -/
inductive Argument.Spells : String → Argument → Prop
  | letters {fs : List Flag} (h : fs ≠ []) : Spells (cluster fs) (.flags fs)
  | name (flag : Flag) : Spells ("--" ++ flag.name) (.flags [flag])
  | nameWithValue (flag : Flag) (value : String) :
    Spells ("--" ++ (flag.name ++ "=" ++ value)) .flagWithValue
  | separator : Spells "--" .separator

/-- The spelling of an option, with or without a value, or of the separator. -/
def IsOption (spelling : String) : Prop := ∃ argument, Argument.Spells spelling argument

-- ================================================== in front of an expression

/-- In the mode `plain` the arguments ask for an expression of these words, to
be written in the mode `plain'`. -/
inductive AsksFor : (plain : Bool) → (arguments : List String) → (plain' : Bool) →
    (words : List String) → Prop
  | nothing (plain : Bool) : AsksFor plain [] plain []
  | separated (plain : Bool) (words : List String) : AsksFor plain ("--" :: words) plain words
  | begun (plain : Bool) {word : String} (words : List String) (h : ¬ IsOption word) :
    AsksFor plain (word :: words) plain (word :: words)
  -- The option may be given once.
  | behindPlain {option : String} {arguments words : List String} {plain' : Bool}
    (hoption : option = "-p" ∨ option = "--plain") (h : AsksFor true arguments plain' words) :
    AsksFor false (option :: arguments) plain' words

end Calculator.CommandLine
