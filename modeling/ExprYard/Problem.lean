import ExprYard.Text.Quoted

/-!
# Problems

What can be wrong with an input, as causes. The wording of each cause, its group and the advice that
goes with it are functions of the cause, so two reports agree exactly when their causes do.
-/

namespace ExprYard

/-- The stage of the work that a problem belongs to. -/
inductive Category where
  | lexical
  | unknownVocabulary
  | grammar
  | pipeline
deriving DecidableEq

/-- The name under which a category is reported. -/
def Category.name : Category → String
  | .lexical => "Lexical"
  | .unknownVocabulary => "UnknownVocabulary"
  | .grammar => "Syntax"
  | .pipeline => "Pipeline"

/-- A cause for refusing an input. -/
inductive Problem where
  /-- A rune that cannot stand in the given place. -/
  | unexpectedRune (rune : Char) (place : String)
  /-- The input ends where something was still wanted. -/
  | unexpectedEnd (wanted : String)
  /-- A number with a point that is not followed by a fraction and an exponent. -/
  | malformedFloat (literal : String)
  /-- A string or character literal without its closing quote. -/
  | unterminatedLiteral (literal : String)
  /-- A closing parenthesis with none open. -/
  | extraneousParenthesis
  /-- A comma outside of all parentheses. -/
  | misplacedComma
  /-- A statement that ends with a parenthesis still open. -/
  | unbalancedStatement
  /-- A spelling that no operator of the arity has. -/
  | notAnOperator (spelling : String) (arity : String)
  /-- A spelling that no keyword has. -/
  | notAKeyword (spelling : String)
  /-- A spelling that no type has. -/
  | notAType (spelling : String)
  /-- A lexical problem met by a reader that saw only its message. -/
  | lexicalError (message : String)
  /-- A token that belongs to no statement. -/
  | unexpectedToken (text : String)
  /-- A parenthesis or a call without its counterpart. -/
  | mismatchedParenthesis
  /-- An operator with too few operands before it. -/
  | missingOperand (operator : String)
  /-- A stage of a pipeline that stopped without finishing. -/
  | pipelineFailure (stage : String)
deriving DecidableEq

namespace Problem

/-- The name under which a problem is reported. -/
def name : Problem → String
  | unexpectedRune .. => "UnexpectedRune"
  | unexpectedEnd .. => "UnexpectedEndOfInput"
  | malformedFloat .. => "MalformedFloat"
  | unterminatedLiteral .. => "UnterminatedLiteral"
  | extraneousParenthesis => "ExtraneousParenthesis"
  | misplacedComma => "MisplacedComma"
  | unbalancedStatement => "UnbalancedStatement"
  | notAnOperator .. => "NotAnOperator"
  | notAKeyword .. => "NotAKeyword"
  | notAType .. => "NotAType"
  | lexicalError .. => "LexicalError"
  | unexpectedToken .. => "UnexpectedToken"
  | mismatchedParenthesis => "MismatchedParenthesis"
  | missingOperand .. => "MissingOperand"
  | pipelineFailure .. => "PipelineFailure"

/-- The group a problem is reported under. -/
def category : Problem → Category
  | unexpectedRune .. | unexpectedEnd .. | malformedFloat .. | unterminatedLiteral ..
  | extraneousParenthesis | misplacedComma | unbalancedStatement | lexicalError .. => .lexical
  | notAnOperator .. | notAKeyword .. | notAType .. => .unknownVocabulary
  | unexpectedToken .. | mismatchedParenthesis | missingOperand .. => .grammar
  | pipelineFailure .. => .pipeline

/-- What is wrong, in one line: pieces of input are quoted. -/
def message : Problem → String
  | unexpectedRune rune place => "unexpected rune " ++ Text.Quoted.rune rune ++ " in " ++ place
  | unexpectedEnd wanted => "unexpected end of input, expected " ++ wanted
  | malformedFloat literal => "not a proper float " ++ Text.Quoted.text literal
  | unterminatedLiteral literal => "unterminated literal " ++ Text.Quoted.text literal
  | extraneousParenthesis => "extraneous right parenthesis"
  | misplacedComma => "comma outside of a parenthesized list"
  | unbalancedStatement => "unbalanced parenthesis before statement end"
  | notAnOperator spelling arity =>
    Text.Quoted.text spelling ++ " is not a " ++ arity ++ " operator"
  | notAKeyword spelling => Text.Quoted.text spelling ++ " is not a keyword"
  | notAType spelling => Text.Quoted.text spelling ++ " is not a type"
  | lexicalError message => message
  | unexpectedToken text => "unexpected token: " ++ Text.Quoted.text text
  | mismatchedParenthesis => "mismatched parenthesis"
  | missingOperand operator => "operator " ++ Text.Quoted.text operator ++ " is missing an operand"
  | pipelineFailure stage => stage ++ " stage stopped unexpectedly"

/-- What the writer of the input may do about it. Pieces of input stand in it as they are. -/
def tip : Problem → Option String
  | unexpectedRune .. => none
  | unexpectedEnd wanted => some ("Input ended while expecting " ++ wanted)
  | malformedFloat literal =>
    some ("Invalid float: `" ++ literal ++ "`, floats are written as `1.5e3`")
  | unterminatedLiteral literal =>
    some ("Literal `" ++ literal ++ "` is missing its closing quote")
  | extraneousParenthesis => some "No open parenthesis to close"
  | misplacedComma => some "Commas separate arguments or tuple elements inside parentheses"
  | unbalancedStatement => some "Close every parenthesis before ending the statement"
  | notAnOperator spelling _ => some ("Unknown operator `" ++ spelling ++ "`")
  | notAKeyword spelling => some ("Unknown keyword `" ++ spelling ++ "`")
  | notAType spelling =>
    some ("Unknown type `" ++ spelling ++
      "`, expected one of i32, f32, bool, string, rune or tuple")
  | lexicalError message => some message
  | unexpectedToken text => some ("Unexpected token: `" ++ text ++ "`")
  | mismatchedParenthesis => some "Every `(` needs a matching `)`"
  | missingOperand operator => some ("Operator `" ++ operator ++ "` is missing an operand")
  | pipelineFailure _ => none

end Problem

end ExprYard
