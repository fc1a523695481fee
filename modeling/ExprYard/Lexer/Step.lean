import ExprYard.Lexer.Basic

/-!
# What a lexer does next

One function for each state. Each consumes some runes, finishes some tokens, and says what is
expected next; `step` picks the function of the state the lexer is in.

A statement is a declaration or an expression:

    let name [: type] = expression
    expression

In an expression operands and binary operators take turns, so a lexer always knows which of the two
it expects. That decides what `-` and `!` mean, and where a comma, a semicolon or a parenthesis may
stand.
-/

namespace ExprYard

namespace Lexer

/-- The problem of having found `found` where something else belongs; `place` names that. -/
def unexpected (found : Option Char) (place : String) : Problem :=
  match found with
  | some r => .unexpectedRune r place
  | none => .unexpectedEnd place

/-- At the head of a statement a word may be `let`; anything else starts an expression. -/
def scanStatementHead (l : Lexer) : Lexer :=
  let l := l.skipBlanks
  match l.ahead with
  | none => l.halt
  | some r => l.goto (if Rune.startsName r then .leadingWord else .operand)

/-- The word `let` starts a declaration. Any other word is the start of a name. -/
def scanLeadingWord (l : Lexer) : Lexer :=
  let l := l.takeRun Rune.continuesName
  if l.lexeme = Keyword.letWord.spelling then
    (l.emit (.keyword .letWord)).goto .letName
  else l.goto .name

/-! ## Declarations -/

/-- A declaration goes on with the name it declares. A colon after that announces a type. -/
def scanLetName (l : Lexer) : Lexer :=
  let l := l.skipBlanks
  if l.ahead.any Rune.startsName then
    let l := ((l.takeRun Rune.continuesName).emit .identifier).skipBlanks
    if l.ahead = some ':' then (l.takeOne.emit (.keyword .typeSeparator)).goto .letType
    else l.goto .letAssign
  else l.fail (unexpected l.ahead "a name after `let`")

/-- A type is a type word, and `tuple` goes on with its element types. -/
def scanLetType (l : Lexer) : Lexer :=
  let l := l.skipBlanks
  if l.ahead.any Rune.startsName then
    let l := l.takeRun Rune.continuesName
    match TypeWord.lookup l.lexeme with
    | .error problem => l.fail problem
    | .ok word =>
      (l.emit (.type word)).goto
        (if word = .tuple then .tupleTypeOpen
        else if 0 < l.parens then .tupleTypeNext
        else .letAssign)
  else l.fail (unexpected l.ahead "a type")

/-- The element types of a tuple stand in parentheses. -/
def scanTupleTypeOpen (l : Lexer) : Lexer :=
  let l := l.skipBlanks
  if l.ahead = some '(' then
    (l.takeOne.emit .openParen).openGroup.goto .letType
  else l.fail (unexpected l.ahead "the element types of a tuple")

/-- An element type is followed by the next one or by the end of its tuple. -/
def scanTupleTypeNext (l : Lexer) : Lexer :=
  let l := l.skipBlanks
  if l.ahead = some ')' then
    let l := (l.takeOne.emit .closeParen).closeGroup
    l.goto (if 0 < l.parens then .tupleTypeNext else .letAssign)
  else if l.ahead = some ',' then (l.takeOne.emit (.keyword .comma)).goto .letType
  else l.fail (unexpected l.ahead "a tuple type")

/-- The head of a declaration ends with `=`. -/
def scanLetAssign (l : Lexer) : Lexer :=
  let l := l.skipBlanks
  if l.ahead = some '=' then (l.takeOne.emit (.keyword .assign)).goto .operand
  else l.fail (unexpected l.ahead "a `let` declaration")

/-! ## Operands -/

/-- A literal runs to the next quote of the kind that opened it, with nothing in between that may
not stand there. -/
def scanQuoted (quote : Char) (body : Char → Bool) (kind : Kind) (l : Lexer) : Lexer :=
  let l := l.takeOne.takeRun body
  if l.ahead = some quote then (l.takeOne.emit kind).goto .afterOperand
  else l.fail (.unterminatedLiteral (String.ofList l.lexeme))

/-- The first rune of an operand decides what it is. Groups may be empty, so a closing parenthesis
is expected here too. -/
def scanOperand (l : Lexer) : Lexer :=
  let l := l.skipBlanks
  match l.ahead with
  | none => l.halt
  | some r =>
    if r = '(' then (l.takeOne.emit .openParen).openGroup.goto .operand
    else if r = ')' then l.takeOne.goto .closing
    else if Rune.startsName r then l.goto .name
    else if Rune.isDigit r then l.goto .number
    else if r = '"' then l.scanQuoted '"' Rune.inString .string
    else if r = '\'' then l.scanQuoted '\'' Rune.inChar .char
    else if Operator.begins [r] .unary then l.goto .unaryOperator
    else l.fail (unexpected (some r) "an expression")

/-- A name with an open parenthesis after it, blanks aside, is called, and the parentheses of its
arguments are counted on their own. -/
def scanName (l : Lexer) : Lexer :=
  let l := (l.takeRun Rune.continuesName).skipBlanks
  if l.ahead = some '(' then
    ((l.emit .function).takeOne.emit .openParen).openCall.goto .operand
  else (l.emit .identifier).goto .afterOperand

/-- A number with a point goes on with a fraction. -/
def scanNumber (l : Lexer) : Lexer :=
  let l := l.takeRun Rune.inNumber
  if l.ahead = some '.' then l.takeOne.goto .fraction
  else (l.emit .integer).goto .afterOperand

/-- A fraction and an exponent, neither of them empty, end a number with a point. -/
def scanFraction (l : Lexer) : Lexer :=
  let m := l.takeRun Rune.inNumber
  if m.ahead = some 'e' ∧ l.taken.length < m.taken.length then
    let n := m.takeOne
    let o := n.takeRun Rune.inNumber
    if n.taken.length < o.taken.length then (o.emit .float).goto .afterOperand
    else o.fail (.malformedFloat (String.ofList o.lexeme))
  else m.fail (.malformedFloat (String.ofList m.lexeme))

/-! ## Between operands -/

/-- After an operand the input may end, a group, an element or a statement may end, or a binary
operator follows. -/
def scanAfterOperand (l : Lexer) : Lexer :=
  let l := l.skipBlanks
  match l.ahead with
  | none => l.halt
  | some r =>
    if r = ')' then l.takeOne.goto .closing
    else if r = ',' then l.takeOne.goto .comma
    else if r = ';' then l.takeOne.goto .semicolon
    else l.goto .binaryOperator

/-- An operator of the given arity, as long as the runes allow. -/
def scanOperator (arity : Arity) (l : Lexer) : Lexer :=
  let l := l.peek
  if l.ahead.any Rune.inOperator then
    let l := l.munch arity
    match Operator.lookup l.lexeme arity with
    | .ok op => (l.emit (.operator op)).goto .operand
    | .error problem => l.fail problem
  else l.fail (unexpected l.ahead "an operator position")

/-- A closing parenthesis closes a group of the innermost call, or else that call itself. -/
def scanClosing (l : Lexer) : Lexer :=
  match l.close with
  | some l => (l.emit .closeParen).goto .afterOperand
  | none => l.fail .extraneousParenthesis

/-- A comma stands inside parentheses. -/
def scanComma (l : Lexer) : Lexer :=
  if l.isLevel then l.fail .misplacedComma
  else (l.emit (.keyword .comma)).goto .operand

/-- A semicolon stands outside of all parentheses. -/
def scanSemicolon (l : Lexer) : Lexer :=
  if l.isLevel then (l.emit (.keyword .semicolon)).goto .statementHead
  else l.fail .unbalancedStatement

/-! ## A step -/

/-- What a lexer does in a state. -/
def scan : State → Lexer → Lexer
  | .statementHead => scanStatementHead
  | .leadingWord => scanLeadingWord
  | .letName => scanLetName
  | .letType => scanLetType
  | .tupleTypeOpen => scanTupleTypeOpen
  | .tupleTypeNext => scanTupleTypeNext
  | .letAssign => scanLetAssign
  | .operand => scanOperand
  | .name => scanName
  | .number => scanNumber
  | .fraction => scanFraction
  | .afterOperand => scanAfterOperand
  | .binaryOperator => scanOperator .binary
  | .unaryOperator => scanOperator .unary
  | .closing => scanClosing
  | .comma => scanComma
  | .semicolon => scanSemicolon

/-- One step of a lexer. A lexer that expects nothing more stays as it is. -/
def step (l : Lexer) : Lexer :=
  match l.state with
  | none => l
  | some state => l.scan state

end Lexer

end ExprYard
