import ExprYard.Command.Report

/-!
# Sessions

A session of the command line works on the expressions that it was given, or, where it was given
none, on the lines that are typed at its prompt. Every expression is worked on by itself, whatever
became of those before it, unless one was a crash: that ends the session.

What is typed arrives as bytes. A line ends with its newline; a line that is not valid UTF-8 ends
the session, and blank lines are passed over.
-/

namespace ExprYard.Command

/-- What a session leaves behind. -/
structure Transcript where
  exit : Nat
  stdout : String
  stderr : String
deriving DecidableEq

namespace Transcript

/-- What is said of a width that is too great. -/
def unfit : String :=
  "Formatting argument out of range\n"

/-- A session that crashed after it had printed `output`. -/
def crash (output : String) : Transcript :=
  ⟨101, output, unfit⟩

/-- A session that had printed `output` before. -/
def behind (output : String) (t : Transcript) : Transcript :=
  { t with stdout := output ++ t.stdout }

theorem behind_empty (t : Transcript) : t.behind "" = t := by
  unfold behind
  rw [String.empty_append]

theorem behind_behind (t : Transcript) (a b : String) :
    (t.behind b).behind a = t.behind (a ++ b) := by
  unfold behind
  rw [String.append_assoc]

end Transcript

/-- The session that works on the given expressions. It fails where one of them does, or if one has
failed before. -/
def Options.batch (o : Options) (times : Timings) (failed : Bool) : List String → Transcript
  | [] => ⟨if failed then 1 else 0, "", ""⟩
  | text :: rest =>
    let report := o.report times text
    match report.ending with
    | .parsed => (o.batch times failed rest).behind report.output
    | .refused => (o.batch times true rest).behind report.output
    | .crashed => .crash report.output

namespace Prompt

/-- What asks for a line. -/
def sign : String :=
  ">> "

/-- What is printed on a session that was ended by a line of invalid bytes. -/
def invalidInput : String :=
  "error: stream did not contain valid UTF-8\n"

/-- The lines of an input, newlines included. -/
def lines (input : List UInt8) : List (List UInt8) :=
  Text.splitAfter 0x0A input

/-- The text of a line, where its bytes are valid UTF-8. -/
def decode (line : List UInt8) : Option String :=
  String.fromUTF8? ⟨line.toArray⟩

/-- The expression on a line: the line without the blanks at its end, where anything is left. -/
def expression (line : String) : Option String :=
  match Text.trimEnd line.toList with
  | [] => none
  | text => some (String.ofList text)

/-- What is printed for a line, and whether that crashes. -/
def answer (o : Options) (times : Timings) (line : String) : Report :=
  match expression line with
  | none => ⟨"", .parsed⟩
  | some text => o.report times text

/-- The session at the prompt on the given lines. -/
def session (o : Options) (times : Timings) : List (List UInt8) → Transcript
  | [] => ⟨0, sign ++ "\n", ""⟩
  | line :: rest =>
    match decode line with
    | none => ⟨1, sign, invalidInput⟩
    | some text =>
      let report := answer o times text
      match report.ending with
      | .crashed => .crash (sign ++ report.output)
      | _ => (session o times rest).behind (sign ++ report.output)

end Prompt

/-- The session at the prompt on the given bytes. -/
def Options.prompt (o : Options) (times : Timings) (input : List UInt8) : Transcript :=
  Prompt.session o times (Prompt.lines input)

/-- The whole session: on the given expressions, or at the prompt where none are given. -/
def Options.session (o : Options) (times : Timings) (texts : List String) (input : List UInt8) :
    Transcript :=
  if texts.isEmpty then o.prompt times input else o.batch times false texts

end ExprYard.Command
