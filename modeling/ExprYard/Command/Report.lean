import ExprYard.Pipeline.Parse

/-!
# Reports

What the command line prints for one expression: its tokens if they are asked for, how long the work
took if that is, and then either its trees or the problem it has. A problem that cannot be shown is a
crash. How long the work took is measured outside, so the times come in as texts.
-/

namespace ExprYard.Command

/-- What the command line was asked for. -/
structure Options where
  /-- Print the tokens of each expression. -/
  tokens : Bool
  /-- Print how long the work took. -/
  verbose : Bool
  /-- Work in a pipeline. -/
  threaded : Bool
deriving DecidableEq

/-- How long the work on an expression took, as it is to be printed. -/
structure Timings where
  tokenized : String
  parsed : String

/-- What the work on an expression came to. -/
inductive Ending where
  /-- The expression has trees. -/
  | parsed
  /-- It has a problem, and that was shown. -/
  | refused
  /-- It has a problem that could not be shown. -/
  | crashed
deriving DecidableEq

/-- What is printed for an expression, and what the work on it came to. -/
structure Report where
  output : String
  ending : Ending
deriving DecidableEq

/-- The trees of an expression, or the problem it has. -/
def Options.parse (o : Options) (text : String) : Except Diagnostic (List Tree) :=
  if o.threaded then Pipeline.parse text.toList defaultFile
  else ExprYard.parse text.toList defaultFile

/-- The tokens of an expression, one to a line. -/
def listing (tokens : List Token) : String :=
  String.join (tokens.map fun t => t.listing ++ "\n")

/-- The report on an expression that has a problem. -/
def refusal (text : String) (problem : Diagnostic) : Report :=
  match problem.narrow.shown text.toList with
  | some shown => ⟨shown, .refused⟩
  | none => ⟨"", .crashed⟩

/-- The report on an expression that has been parsed. -/
def conclusion (text : String) : Except Diagnostic (List Tree) → Report
  | .ok trees => ⟨text ++ " -> " ++ " ".intercalate (trees.map Tree.text) ++ "\n", .parsed⟩
  | .error problem => refusal text problem

/-- A line about a duration, where lines of that sort are asked for. -/
def Options.timing (o : Options) (work time : String) : String :=
  if o.verbose then work ++ " in " ++ time ++ "\n" else ""

/-- The report on the parsing of an expression. -/
def Options.parseReport (o : Options) (times : Timings) (text : String) : Report :=
  let report := conclusion text (o.parse text)
  { report with output := o.timing "Parsed" times.parsed ++ report.output }

/-- The report on an expression. Where the tokens are asked for and cannot be told, it ends with
that problem. -/
def Options.report (o : Options) (times : Timings) (text : String) : Report :=
  if o.tokens then
    match tokenize text.toList defaultFile with
    | .error problem => refusal text problem
    | .ok tokens =>
      let report := o.parseReport times text
      { report with
        output := listing tokens ++ o.timing "Tokenized" times.tokenized ++ report.output }
  else o.parseReport times text

end ExprYard.Command
