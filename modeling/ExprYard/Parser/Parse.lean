import ExprYard.Lexer.Run
import ExprYard.Parser.Basic

/-!
# Parsing to the end

A parser is fed until it fails or the tokens are over, and then asked for its trees. Where the
tokens reported a problem that problem is the result, whatever followed from it.

The tokens may come from a list (`parseTokens`) or straight from a lexer (`parseLexer`), which then
works no further than the parser asks. `parse` goes from a source to its trees: it names the problem
that the lexer met, of which the parser has seen only the message.
-/

namespace ExprYard

/-- A parser that takes tokens in up to its first failure. -/
structure Intake where
  parser : Parser
  failure : Option Diagnostic
deriving DecidableEq

namespace Intake

/-- A fresh parser, without a failure. -/
def start : Intake :=
  ⟨Parser.empty, none⟩

/-- An intake wants tokens until one fails. -/
def sink : Sink Intake where
  wants i := i.failure.isNone
  accept i t :=
    let (parser, failure) := i.parser.push t
    ⟨parser, failure⟩

/-- The result once no more tokens come, and the parser that is left. -/
def conclude (i : Intake) : Parser × Except Diagnostic (List Tree) :=
  match i.failure with
  | some failure => (i.parser, .error failure)
  | none =>
    let (parser, result) := i.parser.finish
    match parser.diagnostics with
    | [] => (parser, result)
    | reported :: _ => (parser, .error reported)

end Intake

/-- Parses a list of tokens. -/
def parseTokens (tokens : List Token) : Parser × Except Diagnostic (List Tree) :=
  (Intake.sink.feed Intake.start tokens).conclude

/-- Parses the tokens of a lexer as it finishes them. The lexer that is left has worked no further
than the parser asked. -/
def parseLexer (l : Lexer) : (Parser × Except Diagnostic (List Tree)) × Lexer :=
  let (intake, l) := l.drain Intake.sink Intake.start
  (intake.conclude, l)

/-- The trees of a source, or the problem it has. A problem that the lexer met takes the place of
the parser's. -/
def parse (source : List Char) (file : String) : Except Diagnostic (List Tree) :=
  let ((_, result), l) := parseLexer (Lexer.ofRunes source file)
  match result, l.error with
  | .error _, some error => .error error
  | result, _ => result

end ExprYard
