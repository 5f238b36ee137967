/-
Evaluation in two phases: first bring the tokens into postfix order, then run
the postfix program on a stack of values.

`Machine` does both at once and has no program in between. Here they are
apart. The conversion holds nothing but deferred operators and never sees
whether operands are there; the run holds nothing but values and never sees a
parenthesis. The conversion may have to stop at a parenthesis, and then hands
over what it has written so far.
-/
import Calculator.Machine

namespace Calculator.Postfix

variable {α : Type}

/-- One instruction of a postfix program. -/
inductive Instruction (α : Type) where
  | push (value : α)
  | apply (operator : Operator)
  deriving DecidableEq, Repr

/-- A postfix program, and the fault that kept it from being complete. -/
structure Program (α : Type) where
  instructions : List (Instruction α)
  stop : Option Fault
  deriving DecidableEq, Repr

/-- The same program with instructions in front. -/
def Program.after (front : List (Instruction α)) (p : Program α) : Program α :=
  { p with instructions := front ++ p.instructions }

-- ================================================================ conversion

/-- The operators on top of a stack that satisfy `due`, and the stack below
them. -/
def takeDue (due : Operator → Bool) : List Deferred → List Operator × List Deferred
  | .operator o :: rest =>
    if due o then
      let (taken, below) := takeDue due rest
      (o :: taken, below)
    else ([], .operator o :: rest)
  | stack => ([], stack)

/-- The postfix program of the tokens that follow a stack of deferred
operators and markers. -/
def convert (stack : List Deferred) : List (Token α) → Program α
  | [] =>
    match takeDue (fun _ => true) stack with
    | (taken, []) => ⟨taken.map .apply, none⟩
    | (taken, _ :: _) => ⟨taken.map .apply, some .unclosedGroup⟩
  | .number value :: tokens => (convert stack tokens).after [.push value]
  | .operator o :: tokens =>
    match takeDue (fun waiting => o.precedence ≤ waiting.precedence) stack with
    | (taken, below) => (convert (.operator o :: below) tokens).after (taken.map .apply)
  | .opening :: tokens => convert (.group :: stack) tokens
  | .closing :: tokens =>
    match takeDue (fun _ => true) stack with
    | (taken, []) => ⟨taken.map .apply, some .unopenedGroup⟩
    | (taken, _ :: below) => (convert below tokens).after (taken.map .apply)

/-- What the conversion writes when it reads a token, and the stack that it
goes on with. A closing parenthesis without a partner removes nothing. -/
def read (stack : List Deferred) : Token α → List (Instruction α) × List Deferred
  | .number value => ([.push value], stack)
  | .operator o =>
    match takeDue (fun waiting => o.precedence ≤ waiting.precedence) stack with
    | (taken, below) => (taken.map .apply, .operator o :: below)
  | .opening => ([], .group :: stack)
  | .closing =>
    match takeDue (fun _ => true) stack with
    | (taken, below) => (taken.map .apply, below.tail)

/-- What has been written when the tokens have been read, and nothing is known
of what follows them. -/
def written (stack : List Deferred) : List (Token α) → List (Instruction α)
  | [] => []
  | t :: ts => (read stack t).1 ++ written (read stack t).2 ts

-- ======================================================================= run

variable [Arithmetic α]

/-- Runs a postfix program on a stack of values, the top in front. -/
def run : List α → List (Instruction α) → Except Fault (List α)
  | values, [] => .ok values
  | values, .push value :: program => run (value :: values) program
  | right :: left :: below, .apply o :: program => run (o.apply left right :: below) program
  | _, .apply o :: _ => .error (.missingOperand o)

/-- A program in two parts runs its second part on what the first part
left. -/
theorem run_append (values : List α) (first second : List (Instruction α)) :
    run values (first ++ second) = (run values first).bind (run · second) := by
  induction first generalizing values with
  | nil => simp [run, Except.bind]
  | cons instruction first ih =>
    match instruction, values with
    | .push value, values => simp only [List.cons_append, run, ih]
    | .apply o, right :: left :: below => simp only [List.cons_append, run, ih]
    | .apply o, [] => simp [run, Except.bind]
    | .apply o, [_] => simp [run, Except.bind]

/-- The value of tokens in two phases. A fault of the run comes before the
fault that stopped the conversion. -/
def value (tokens : List (Token α)) : Except Fault α :=
  match run [] (convert [] tokens).instructions, (convert [] tokens).stop with
  | .error fault, _ => .error fault
  | .ok _, some fault => .error fault
  | .ok [x], none => .ok x
  | .ok _, none => .error .notOneValue

end Calculator.Postfix
