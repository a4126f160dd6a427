import BoundedProbing.Demo.Options

/-!
# The Demonstration as a Program

Reads the options from the command line, runs the demonstration and prints its
lines.
-/

namespace BoundedProbing

/-- What the program is called with. -/
def usage : String :=
  "usage: [-n|--items COUNT] [-r|--remove_every STEP]"

end BoundedProbing

/-- Runs the demonstration; exits with 2 if the command line is not
    understood. -/
def main (arguments : List String) : IO UInt32 := do
  match BoundedProbing.Demo.Options.read arguments with
  | none =>
    IO.eprintln BoundedProbing.usage
    return 2
  | some options =>
    let transcript := BoundedProbing.Demo.runUsual options
    transcript.lines.forM fun line => IO.println line
    return transcript.exitCode
