/-
The command line.

# The program's own part

The program declares the option `--plain`, with the letter `p`, and an
expression of any number of words that may begin with hyphens. It joins the
words with single spaces and writes the result, plain or in the box, or the
message of the fault; without a word it writes the banner. All of this
succeeds.

# The argument parser's part

The rest are conventions of the library that parses the arguments, as far as
these declarations meet them. It adds the options `--help` and `--version`. It
recognises options from the left, by their exact spellings only, until the
first argument that is none or that is two hyphens; there the expression
begins. Letters may share a hyphen if all of them are options. A long name
ends at an equals sign, and what follows the sign is a value. An option with a
value or given twice is refused, with exit code 2 and nothing on standard
output. What is settled first from the left counts. The help is laid out by
the library, with the program's sentences in it.
-/
import Calculator.Answer
import Calculator.Box
import Calculator.Evaluation

namespace Calculator.CommandLine

-- ===================================================== reading the arguments

inductive Flag where
  | plain
  | help
  | version
  deriving DecidableEq, Repr

/-- What an argument is, as long as the expression has not begun. -/
inductive Argument where
  | flags (flags : List Flag)
  /-- An option with a value, which none of them takes. -/
  | flagWithValue
  | separator
  | word
  deriving DecidableEq, Repr

/-- The option that a letter behind one hyphen stands for. -/
def Flag.ofLetter? : Char → Option Flag
  | 'p' => some plain
  | 'h' => some help
  | 'V' => some version
  | _ => none

/-- The option that a name behind two hyphens stands for. -/
def Flag.ofName? (name : List Char) : Option Flag :=
  if name = "plain".toList then some plain
  else if name = "help".toList then some help
  else if name = "version".toList then some version
  else none

/-- What an argument with two hyphens in front is, as the argument parser has
it. The name of an option ends at the first equals sign; whatever follows the
sign, even nothing, is a value. -/
def Argument.ofLong (name : List Char) : Argument :=
  if name = [] then separator
  else
    match Flag.ofName? (name.takeWhile (· ≠ '=')) with
    | some flag => if '=' ∈ name then flagWithValue else flags [flag]
    | none => word

/-- What an argument is, by its spelling. Letters behind one hyphen are options
together or not at all. -/
def Argument.ofSpelling (spelling : String) : Argument :=
  match spelling.toList with
  | '-' :: '-' :: name => ofLong name
  | '-' :: letter :: letters =>
    match (letter :: letters).mapM Flag.ofLetter? with
    | some fs => flags fs
    | none => word
  | _ => word

/-- What the program is asked to do. -/
inductive Request where
  | help
  | version
  | misuse
  | calculate (plain : Bool) (words : List String)
  deriving DecidableEq, Repr

/-- The flags of one argument: either they settle the request, or they leave
the mode in which to go on. -/
def readFlags (plain : Bool) : List Flag → Request ⊕ Bool
  | [] => .inr plain
  | .help :: _ => .inl .help
  | .version :: _ => .inl .version
  | .plain :: flags => if plain then .inl .misuse else readFlags true flags

/-- The request that the arguments make. -/
def readArguments (plain : Bool) : List String → Request
  | [] => .calculate plain []
  | argument :: arguments =>
    match Argument.ofSpelling argument with
    | .separator => .calculate plain arguments
    | .word => .calculate plain (argument :: arguments)
    | .flagWithValue => .misuse
    | .flags flags =>
      match readFlags plain flags with
      | .inl request => request
      | .inr plain => readArguments plain arguments

-- ============================================================ what is written

/-- What a run of the program leaves behind. -/
structure Output where
  stdout : String
  exitCode : UInt8
  deriving DecidableEq, Repr

def versionText : String := "tally 0.1.0"

def helpText : String := "\n".intercalate
  ["A whitespace-tokenized infix calculator built on a two-stack shunting-yard evaluator.",
    "",
    "Usage: tally [OPTIONS] [EXPRESSION]...",
    "",
    "Arguments:",
    "  [EXPRESSION]...  The expression to evaluate. Multiple words are joined with single spaces, " ++
      "so quoting is optional",
    "",
    "Options:",
    "  -p, --plain    Prints only the result instead of drawing the expression box",
    "  -h, --help     Print help",
    "  -V, --version  Print version"]

/-- What is written when there is no expression. -/
def bannerText : String := "\n".intercalate
  ["Tally calculator",
    "Usage: tally \"<expression>\"",
    "Example: tally \"3 + 5\""]

/-- The answer to an expression: a fault on a line of its own, or the result,
plain or in the box. -/
def calculationText (plain : Bool) (expression : String) : String :=
  match evaluate expression with
  | .error fault => "Error: " ++ fault.message
  | .ok result =>
    if plain then resultText result else Box.draw expression (resultText result)

/-- A successful run that writes one text and ends the line. -/
def print (text : String) : Output := ⟨text ++ "\n", 0⟩

/-- What a request leaves behind. The words of an expression are joined with
single spaces. -/
def Request.output : Request → Output
  | help => print helpText
  | version => print versionText
  | misuse => ⟨"", 2⟩
  | calculate _ [] => print bannerText
  | calculate plain words => print (calculationText plain (" ".intercalate words))

/-- The program: what the arguments after its name leave behind. -/
def run (arguments : List String) : Output := (readArguments false arguments).output

end Calculator.CommandLine
