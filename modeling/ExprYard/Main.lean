import ExprYard.Command.Arguments
import ExprYard.Command.Session

/-!
# The command line

Reads the arguments and the bytes that are typed, measures times, and prints what the session leaves
behind. Everything else is decided elsewhere.
-/

namespace ExprYard.Command

/-- A duration in nanoseconds, as it is printed. -/
def durationText (nanoseconds : Nat) : String :=
  if nanoseconds < 1000 then toString nanoseconds ++ "ns"
  else if nanoseconds < 1000000 then toString (nanoseconds / 1000) ++ "us"
  else toString (nanoseconds / 1000000) ++ "ms"

/-- How long some work takes. -/
def timed (work : Unit → Bool) : IO String := do
  let before ← IO.monoNanosNow
  let _ ← IO.lazyPure work
  let after ← IO.monoNanosNow
  return durationText (after - before)

/-- How long the work on an expression takes, where that is asked for. -/
def Options.timings (o : Options) (text : String) : IO Timings := do
  if !o.verbose then return ⟨"", ""⟩
  let tokenized ← timed fun _ => (tokenize text.toList defaultFile).isOk
  let parsed ← timed fun _ => (o.parse text).isOk
  return ⟨tokenized, parsed⟩

/-- Ends the session after a crash; the exit status. -/
def runCrash : IO UInt32 := do
  (← IO.getStderr).putStr Transcript.unfit
  return 101

/-- Works on the given expressions; the exit status. -/
def runBatch (o : Options) (texts : List String) : IO UInt32 := do
  let mut failed := false
  for text in texts do
    let report := o.report (← o.timings text) text
    IO.print report.output
    if report.ending = .crashed then return ← runCrash
    failed := failed || report.ending = .refused
  return if failed then 1 else 0

/-- Reads the bytes up to and with the next newline, or up to the end of the input. -/
def readLine (input : IO.FS.Stream) : IO ByteArray := do
  let mut line := ByteArray.empty
  repeat
    let byte ← input.read 1
    line := line ++ byte
    if byte.isEmpty || byte.toList.contains 0x0A then break
  return line

/-- Works on the lines that are typed at the prompt; the exit status. -/
def runPrompt (o : Options) : IO UInt32 := do
  let input ← IO.getStdin
  let output ← IO.getStdout
  repeat
    output.putStr Prompt.sign
    output.flush
    let line ← readLine input
    if line.isEmpty then
      output.putStr "\n"
      return 0
    match Prompt.decode line.toList with
    | none =>
      (← IO.getStderr).putStr Prompt.invalidInput
      return 1
    | some text =>
      let report := Prompt.answer o (← o.timings text) text
      output.putStr report.output
      if report.ending = .crashed then return ← runCrash
  return 0

end ExprYard.Command

/-- Works on the expressions among the arguments, or at the prompt where there are none. -/
def main (args : List String) : IO UInt32 := do
  match ExprYard.Command.Arguments.ofList args with
  | .error arg =>
    IO.eprintln ("error: unexpected argument '" ++ arg ++ "' found")
    return 2
  | .ok arguments =>
    if arguments.texts.isEmpty then ExprYard.Command.runPrompt arguments.options
    else ExprYard.Command.runBatch arguments.options arguments.texts
