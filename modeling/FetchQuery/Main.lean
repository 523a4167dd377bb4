import FetchQuery.Command.Outcome

/-!
# The command line

What a call prints is decided by `Task.ofArguments` and `Task.outcome`. Here the
standard input is read, only for a task that asks for it, and the outcome printed.
-/

set_option autoImplicit false

namespace FetchQuery.Command

/-- The text of the standard input. -/
def readInput : IO (Except Outcome String) := do
  let stdin ← IO.getStdin
  if ← stdin.isTty then
    return .error (.failure "No input provided. Pass it as an argument or pipe it to stdin.")
  else
    let mut bytes := ByteArray.empty
    repeat
      let chunk ← stdin.read 65536
      if chunk.isEmpty then break
      bytes := bytes ++ chunk
    match String.fromUTF8? bytes with
    | some text => return .ok text
    | none => return .error (.failure "IO error: stream did not contain valid UTF-8")

/-- The outcome of a call, with the standard input read if it is needed. -/
def outcomeOf (arguments : List String) : IO Outcome := do
  match Task.ofArguments arguments with
  | .error halt => return halt.outcome
  | .ok task =>
    if task.readsInput then
      match ← readInput with
      | .ok input => return task.outcome input
      | .error outcome => return outcome
    else return task.outcome ""

end FetchQuery.Command

/-- Prints the outcome of a call and returns its exit code. -/
def main (arguments : List String) : IO UInt32 := do
  let outcome ← FetchQuery.Command.outcomeOf arguments
  (← IO.getStdout).putStr outcome.stdout
  (← IO.getStderr).putStr outcome.stderr
  return outcome.exit.toUInt32
