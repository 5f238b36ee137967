/-
The executable: hands its arguments to the command line, writes what that
answers, and ends with its exit code.
-/
import Calculator.CommandLine

/-- Runs the calculator on the arguments after the program's name. -/
def main (arguments : List String) : IO UInt32 := do
  let output := Calculator.CommandLine.run arguments
  IO.print output.stdout
  return output.exitCode.toUInt32
