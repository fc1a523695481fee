import ExprYard.Lexer.Run
import ExprYard.Parser.Parse

/-!
# A lexer with narrow offsets

A `Lexer` counts runes in numbers. `Narrow` is the lexer with its offsets as they are kept, in 32
bits, and it goes to work as the lexer of the source does, rune by rune: it keeps where the token
being built stops as an offset of its own, which is moved whenever a rune is consumed or given back,
and finishes tokens by that offset and not by the number of their runes.

There are two builds of it. They differ where an offset does not fit, or where a rune is taken back
and the slot is not free: the checked one then comes to nothing at all, and the wrapping one goes on,
with offsets that start anew. Either comes to nothing where a loop goes on for more turns than the
lexer has runes left, or steps left to make; that neither ever does is a matter of proof.

A narrow lexer remembers all that it goes through, stroke by stroke, down to a single rune that is
handed out or taken back. How it compares with the lexer is said by `Narrow.does_step` and what is
built on it.
-/

namespace ExprYard

namespace Lexer

namespace Narrow

/-- What becomes of work that cannot go on properly. -/
inductive Build where
  /-- It breaks off. -/
  | checked
  /-- It goes on, and offsets start anew. -/
  | wrapping
deriving DecidableEq

/-- What has happened last to a lexer. -/
inductive Stroke where
  /-- A rune was handed out, or there was none. -/
  | read
  /-- The rune that was handed out last was taken back. -/
  | unread
  /-- So was the last rune of the token being built, which still stops behind it. -/
  | unreadTaken
  /-- A rune was consumed into the token being built. -/
  | take
  /-- The last rune of the token being built was given back. -/
  | giveBack
  /-- Something that takes no rune and takes none back. -/
  | other
deriving DecidableEq

/-- A lexer right after a stroke. -/
structure Moment where
  stroke : Stroke
  lexer : Lexer
  /-- Where the token being built stops. -/
  stop : Nat

/-- A lexer that remembers what it has gone through. -/
structure Watched where
  build : Build
  /-- The lexer as it is now. -/
  lexer : Lexer
  /-- Where the token being built stops. -/
  stop : Nat
  /-- The moments that it has gone through, the latest first. -/
  past : List Moment

/-- A lexer before everything that the cursor has yet to hand out, with nothing to remember. -/
def Watched.ofCursor (build : Build) (cursor : Cursor) (file : String) : Watched :=
  ⟨build, Lexer.ofCursor cursor file, 0, []⟩

/-- A lexer before the first of the given runes. -/
def Watched.ofRunes (build : Build) (runes : List Char) (file : String) : Watched :=
  .ofCursor build (Cursor.ofRunes runes) file

/-- What a lexer does that is watched, unless it comes to nothing. -/
abbrev Watch := StateT Watched Option

/-- The lexer as it is now. -/
def lexer : Watch Lexer := do
  return (← get).lexer

/-- Comes to a moment. -/
def pass (m : Moment) : Watch Unit :=
  modify fun w => ⟨w.build, m.lexer, m.stop, m :: w.past⟩

/-- Changes the lexer by a stroke and leaves alone where the token being built stops. -/
def adjust (stroke : Stroke) (change : Lexer → Lexer) : Watch Unit := do
  let w ← get
  pass ⟨stroke, change w.lexer, w.stop⟩

/-- Changes the lexer in the midst of a stroke. -/
def alter (change : Lexer → Lexer) : Watch Unit :=
  modify fun w => { w with lexer := change w.lexer }

/-- Sees to what the wrapping build takes for granted. -/
def mind (c : Prop) [Decidable c] : Watch Unit := do
  guard ((← get).build = .wrapping ∨ c)

/-! ## Strokes -/

/-- Hands out the next rune, if there is one, and moves to the offset behind it. -/
def read : Watch (Option Char) := do
  let (found, cursor) := (← lexer).cursor.read
  mind (cursor.pos < UInt32.size)
  adjust .read fun l => { l with cursor := { cursor with pos := Offset.wrap cursor.pos } }
  return found

/-- The offset before another one. -/
def before (offset : Nat) : Watch Nat := do
  mind (0 < offset)
  return Offset.wrap (offset + (UInt32.size - 1))

/-- Takes back the rune that was handed out last. -/
def unread (stroke : Stroke) (r : Char) : Watch Unit := do
  let cursor := (← lexer).cursor
  mind (cursor.slot = none)
  let pos ← before cursor.pos
  adjust stroke fun l => { l with cursor := { cursor with slot := some r, pos } }

/-- Where the token being built starts that goes on with the rune that was handed out last. -/
def origin : Watch Nat := do
  let l ← lexer
  if l.taken.isEmpty then before l.cursor.pos else return l.start

/-- Consumes the next rune into the token being built, which stops behind it. -/
def take : Watch (Option Char) := do
  match ← read with
  | none => return none
  | some r =>
    let start ← origin
    let l ← lexer
    pass ⟨.take, { l with taken := r :: l.taken, start }, l.cursor.pos⟩
    return some r

/-- Gives the last rune of the token being built back to the input. The token loses the rune, the
rune is taken back, and only then is it moved where the token stops. -/
def giveBack : Watch Unit := do
  match (← lexer).taken with
  | [] => return ()
  | r :: taken =>
    alter fun l => { l with taken }
    unread .unreadTaken r
    let l ← lexer
    pass ⟨.giveBack, l, l.cursor.pos⟩

/-- Ends a look or a run with what was handed out last: a rune goes back. -/
def sighted (back : Char → Watch Unit) : Option Char → Watch (Option Char)
  | none => return none
  | some r => do
    back r
    return some r

/-- Looks at the next rune. -/
def peek : Watch (Option Char) := do
  sighted (unread .unread) (← read)

/-- Skips blanks and looks at the rune after them, in at most `turns` turns. -/
def skipFor : Nat → Watch (Option Char)
  | 0 => failure
  | turns + 1 => do
    let found ← read
    if found.any Rune.isBlank then skipFor turns else sighted (unread .unread) found

/-- Skips blanks and looks at the rune after them. -/
def skipBlanks : Watch (Option Char) := do
  skipFor ((← lexer).cursor.remaining.length + 1)

/-- Consumes runes while they go on with the token being built, and looks at the first that does
not, in at most `turns` turns. -/
def consumeFor (goesOn : Char → List Char → Bool) : Nat → Watch (Option Char)
  | 0 => failure
  | turns + 1 => do
    let found ← take
    let l ← lexer
    if found.any (goesOn · l.lexeme) then consumeFor goesOn turns
    else sighted (fun _ => giveBack) found

/-- Consumes runes while they go on with the token being built, and looks at the first that does
not. -/
def consume (goesOn : Char → List Char → Bool) : Watch (Option Char) := do
  consumeFor goesOn ((← lexer).cursor.remaining.length + 1)

/-- Consumes runes while `p` holds of them. -/
def takeRun (p : Char → Bool) : Watch (Option Char) :=
  consume fun r _ => p r

/-- Consumes operator runes while they begin an operator. -/
def munch (arity : Arity) : Watch (Option Char) :=
  consume fun r lexeme => Rune.inOperator r && Operator.begins lexeme arity

/-- Finishes the token being built, from where it starts to where it stops. -/
def emit (kind : Kind) : Watch Unit := do
  let w ← get
  let token : Token :=
    ⟨kind, String.ofList w.lexer.lexeme, w.lexer.start, w.stop, w.lexer.file⟩
  adjust .other fun l => { l with taken := [], queue := l.queue ++ [token] }

/-- Changes the lexer and leaves its cursor and the token being built alone. -/
def turn (change : Lexer → Lexer) : Watch Unit :=
  adjust .other change

/-- Gives up. -/
def fail (problem : Problem) : Watch Unit :=
  turn (Lexer.fail problem)

/-- Expects `state` next. -/
def goto (state : State) : Watch Unit :=
  turn (Lexer.goto state)

/-- Expects nothing more. -/
def halt : Watch Unit :=
  turn Lexer.halt

/-! ## A token, and then a state -/

/-- Finishes a token and expects `state` next. -/
def finish (kind : Kind) (state : State) : Watch Unit := do
  emit kind
  goto state

/-- Consumes the rune in sight for `state` to finish. -/
def hold (state : State) : Watch Unit := do
  let _ ← take
  goto state

/-- Consumes the rune in sight as a token and counts parentheses anew. -/
def takeAs (kind : Kind) (count : Lexer → Lexer) : Watch Unit := do
  let _ ← take
  emit kind
  turn count

/-- Consumes the rune in sight as a token and expects `state` next. -/
def takeAnd (kind : Kind) (state : State) : Watch Unit := do
  let _ ← take
  finish kind state

/-! ## Declarations -/

def scanStatementHead : Watch Unit := do
  match ← skipBlanks with
  | none => halt
  | some r => goto (if Rune.startsName r then .leadingWord else .operand)

def scanLeadingWord : Watch Unit := do
  let _ ← takeRun Rune.continuesName
  if (← lexer).lexeme = Keyword.letWord.spelling then finish (.keyword .letWord) .letName
  else goto .name

def scanLetName : Watch Unit := do
  let found ← skipBlanks
  if found.any Rune.startsName then
    let _ ← takeRun Rune.continuesName
    emit .identifier
    if (← skipBlanks) = some ':' then takeAnd (.keyword .typeSeparator) .letType
    else goto .letAssign
  else fail (unexpected found "a name after `let`")

def scanLetType : Watch Unit := do
  let found ← skipBlanks
  if found.any Rune.startsName then
    let _ ← takeRun Rune.continuesName
    let l ← lexer
    match TypeWord.lookup l.lexeme with
    | .error problem => fail problem
    | .ok word =>
      finish (.type word)
        (if word = .tuple then .tupleTypeOpen
        else if 0 < l.parens then .tupleTypeNext
        else .letAssign)
  else fail (unexpected found "a type")

def scanTupleTypeOpen : Watch Unit := do
  let found ← skipBlanks
  if found = some '(' then
    takeAs .openParen openGroup
    goto .letType
  else fail (unexpected found "the element types of a tuple")

def scanTupleTypeNext : Watch Unit := do
  let found ← skipBlanks
  if found = some ')' then
    takeAs .closeParen closeGroup
    goto (if 0 < (← lexer).parens then .tupleTypeNext else .letAssign)
  else if found = some ',' then takeAnd (.keyword .comma) .letType
  else fail (unexpected found "a tuple type")

def scanLetAssign : Watch Unit := do
  let found ← skipBlanks
  if found = some '=' then takeAnd (.keyword .assign) .operand
  else fail (unexpected found "a `let` declaration")

/-! ## Operands -/

def scanQuoted (quote : Char) (body : Char → Bool) (kind : Kind) : Watch Unit := do
  let _ ← take
  if (← takeRun body) = some quote then takeAnd kind .afterOperand
  else fail (.unterminatedLiteral (String.ofList (← lexer).lexeme))

def scanOperand : Watch Unit := do
  match ← skipBlanks with
  | none => halt
  | some r =>
    if r = '(' then
      takeAs .openParen openGroup
      goto .operand
    else if r = ')' then hold .closing
    else if Rune.startsName r then goto .name
    else if Rune.isDigit r then goto .number
    else if r = '"' then scanQuoted '"' Rune.inString .string
    else if r = '\'' then scanQuoted '\'' Rune.inChar .char
    else if Operator.begins [r] .unary then goto .unaryOperator
    else fail (unexpected (some r) "an expression")

def scanName : Watch Unit := do
  let _ ← takeRun Rune.continuesName
  if (← skipBlanks) = some '(' then
    emit .function
    takeAs .openParen openCall
    goto .operand
  else finish .identifier .afterOperand

def scanNumber : Watch Unit := do
  if (← takeRun Rune.inNumber) = some '.' then hold .fraction
  else finish .integer .afterOperand

def scanFraction : Watch Unit := do
  let whole := (← lexer).taken.length
  if (← takeRun Rune.inNumber) = some 'e' ∧ whole < (← lexer).taken.length then
    let _ ← take
    let fraction := (← lexer).taken.length
    let _ ← takeRun Rune.inNumber
    if fraction < (← lexer).taken.length then finish .float .afterOperand
    else fail (.malformedFloat (String.ofList (← lexer).lexeme))
  else fail (.malformedFloat (String.ofList (← lexer).lexeme))

/-! ## Between operands -/

def scanAfterOperand : Watch Unit := do
  match ← skipBlanks with
  | none => halt
  | some r =>
    if r = ')' then hold .closing
    else if r = ',' then hold .comma
    else if r = ';' then hold .semicolon
    else goto .binaryOperator

def scanOperator (arity : Arity) : Watch Unit := do
  let found ← peek
  if found.any Rune.inOperator then
    let _ ← munch arity
    match Operator.lookup (← lexer).lexeme arity with
    | .ok op => finish (.operator op) .operand
    | .error problem => fail problem
  else fail (unexpected found "an operator position")

def scanClosing : Watch Unit := do
  match (← lexer).close with
  | some l =>
    turn fun _ => l
    finish .closeParen .afterOperand
  | none => fail .extraneousParenthesis

def scanComma : Watch Unit := do
  if (← lexer).isLevel then fail .misplacedComma
  else finish (.keyword .comma) .operand

def scanSemicolon : Watch Unit := do
  if (← lexer).isLevel then finish (.keyword .semicolon) .statementHead
  else fail .unbalancedStatement

/-! ## Runs -/

/-- What the narrow lexer does in a state. -/
def scan : State → Watch Unit
  | .statementHead => scanStatementHead
  | .leadingWord => scanLeadingWord
  | .letName => scanLetName
  | .letType => scanLetType
  | .tupleTypeOpen => scanTupleTypeOpen
  | .tupleTypeNext => scanTupleTypeNext
  | .letAssign => scanLetAssign
  | .operand => scanOperand
  | .name => scanName
  | .number => scanNumber
  | .fraction => scanFraction
  | .afterOperand => scanAfterOperand
  | .binaryOperator => scanOperator .binary
  | .unaryOperator => scanOperator .unary
  | .closing => scanClosing
  | .comma => scanComma
  | .semicolon => scanSemicolon

/-- One step of the narrow lexer. -/
def step : Watch Unit := do
  match (← lexer).state with
  | none => return ()
  | some state => scan state

/-- Steps until some token is finished or nothing more is expected, in at most `turns` turns. -/
def settleFor : Nat → Watch Unit
  | 0 => failure
  | turns + 1 => do
    let l ← lexer
    if l.queue.isEmpty && l.state.isSome then
      step
      settleFor turns

/-- Steps until some token is finished or nothing more is expected. -/
def settle : Watch Unit := do
  settleFor ((← lexer).potential + 1)

/-- Hands out the next token, if there is one. -/
def next : Watch (Option Token) := do
  settle
  match (← lexer).queue with
  | [] => return none
  | t :: queue =>
    turn fun l => { l with queue }
    return some t

/-- Answers a number of requests for a token. -/
def requests : Nat → Watch (List (Option Token))
  | 0 => return []
  | n + 1 => do
    let answers ← requests n
    let answer ← next
    return answers ++ [answer]

/-- Makes a number of steps. -/
def steps : Nat → Watch Unit
  | 0 => return ()
  | n + 1 => do
    steps n
    step

/-- Feeds a sink for as long as it wants tokens and there are some, with at most `turns` requests. -/
def drainFor {σ : Type} (sink : Sink σ) : Nat → σ → Watch σ
  | 0, _ => failure
  | turns + 1, s =>
    if sink.wants s then do
      match ← next with
      | none => return s
      | some t => drainFor sink turns (sink.accept s t)
    else return s

/-- Feeds a sink for as long as it wants tokens and there are some. -/
def drain {σ : Type} (sink : Sink σ) (s : σ) : Watch σ := do
  drainFor sink ((← lexer).potential + 1) s

/-- All tokens that are yet to be handed out. -/
def tokens : Watch (List Token) := do
  return (← drain (Sink.keeping none) []).reverse

/-- What the runes to come are taken apart into: all tokens, or the problem that they have. -/
def takeApart : Watch (Except Diagnostic (List Token)) := do
  let ts ← tokens
  let l ← lexer
  match l.error with
  | some error => return .error error
  | none => return .ok (ts ++ [Token.endOfInput l.position])

/-- All tokens of a source and the token that ends them, or the problem that the source has. -/
def tokenize (build : Build) (source : List Char) (file : String) :
    Option (Except Diagnostic (List Token)) :=
  takeApart.run' (.ofRunes build source file)

/-- Feeds a parser with the tokens to come as they are finished. -/
def takeIn : Watch (Parser × Except Diagnostic (List Tree)) := do
  let intake ← drain Intake.sink Intake.start
  return intake.conclude

/-- What a parser comes to that is fed with the tokens of a source, and the parser that is left. -/
def parseLexer (build : Build) (source : List Char) (file : String) :
    Option (Parser × Except Diagnostic (List Tree)) :=
  takeIn.run' (.ofRunes build source file)

end Narrow

end Lexer

end ExprYard
