import ExprYard.Source.Position
import ExprYard.Vocabulary.Keyword
import ExprYard.Vocabulary.Operator
import ExprYard.Vocabulary.TypeWord

/-!
# Tokens

A token is a kind, the text it was written with, and where it stands. Beside the kinds that are read
from a source there are four that are not: the end of a token list, the report of a lexical problem,
a token refused beforehand, and the empty tuple that a parser puts for `()`.
-/

namespace ExprYard

/-- What a token is. -/
inductive Kind where
  /-- The end of the tokens of a source. -/
  | eof
  /-- The report of a lexical problem; its text is the message. -/
  | error
  /-- A token that was refused beforehand. -/
  | invalid
  /-- The empty tuple `()`. -/
  | emptyTuple
  | openParen
  | closeParen
  /-- A name. -/
  | identifier
  /-- A name that is called: the next token is an open parenthesis. -/
  | function
  | string
  | char
  | integer
  | float
  | operator (op : Operator)
  | keyword (word : Keyword)
  | type (word : TypeWord)
deriving DecidableEq

namespace Kind

/-- Every kind, once. -/
def all : List Kind :=
  [eof, error, invalid, emptyTuple, openParen, closeParen, identifier, function, string, char,
    integer, float] ++ Operator.all.map operator ++ Keyword.all.map keyword ++ TypeWord.all.map type

/-- The name of a kind. -/
def label : Kind → String
  | eof => "EOF"
  | error => "Error"
  | invalid => "Invalid"
  | emptyTuple => "Empty"
  | openParen => "OpenParen"
  | closeParen => "CloseParen"
  | identifier => "Identifier"
  | function => "Function"
  | string => "String"
  | char => "Char"
  | integer => "Integer"
  | float => "Float"
  | operator op => "Operator(" ++ op.name ++ ")"
  | keyword word => "Keyword(" ++ word.name ++ ")"
  | type word => "Type(" ++ word.name ++ ")"

/-- How tokens of a kind are folded with their operands, if they take any. -/
def binding : Kind → Option Binding
  | operator op => some op.binding
  | keyword word => word.binding
  | _ => none

/-- Whether tokens of a kind write a value out. -/
def isLiteral : Kind → Bool
  | string | char | integer | float => true
  | _ => false

/-- Whether tokens of a kind can be told apart by their texts only. -/
def variesInText : Kind → Bool
  | identifier | function | error => true
  | kind => kind.isLiteral

theorem mem_all (kind : Kind) : kind ∈ all := by
  cases kind with
  | operator op => cases op <;> decide
  | keyword word => cases word <;> decide
  | type word => cases word <;> decide
  | _ => decide

end Kind

/-- A token of a source. -/
structure Token where
  kind : Kind
  text : String
  span : Span
deriving DecidableEq

namespace Token

/-- Where a token starts. -/
def position (t : Token) : Position :=
  t.span.first

/-- The token that ends the tokens of a source. -/
def endOfInput (p : Position) : Token :=
  ⟨.eof, "EOF", Span.point p⟩

/-- One line that says what a token is, and how it is written where its kind leaves that open. -/
def listing (t : Token) : String :=
  if t.kind.variesInText then t.kind.label ++ " (" ++ t.text ++ ")" else t.kind.label ++ " ()"

end Token

end ExprYard
