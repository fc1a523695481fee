import ExprYard.Diagnostic
import ExprYard.Lexer.Cursor
import ExprYard.Rune.Class
import ExprYard.Token

/-!
# Lexers

A lexer turns the runes of an input into tokens. It is a machine with a handful of states, named for
what may come next: the head of a statement, the name after `let`, an operand, what follows an
operand. This module holds the machine itself and the moves that its states are made of: consuming
runes into the token being built, finishing a token, and giving up.

Parentheses are counted, not remembered. Inside the argument list of a call the count starts anew
and the counts around it wait in `outer`, innermost first.
-/

namespace ExprYard

/-- What a lexer expects next. -/
inductive State where
  /-- The head of a statement. -/
  | statementHead
  /-- The first word of a statement, which may be `let`. -/
  | leadingWord
  /-- The name that a declaration declares. -/
  | letName
  /-- A type. -/
  | letType
  /-- The parenthesis after the word `tuple`. -/
  | tupleTypeOpen
  /-- What follows an element type. -/
  | tupleTypeNext
  /-- The `=` of a declaration. -/
  | letAssign
  /-- An operand. -/
  | operand
  /-- The rest of a name, which may be called. -/
  | name
  /-- The rest of a number up to its point. -/
  | number
  /-- The rest of a number after its point. -/
  | fraction
  /-- What follows an operand. -/
  | afterOperand
  | binaryOperator
  | unaryOperator
  /-- A closing parenthesis, already consumed. -/
  | closing
  /-- A comma, already consumed. -/
  | comma
  /-- A semicolon, already consumed. -/
  | semicolon
deriving DecidableEq

/-- A lexer at work. -/
structure Lexer where
  cursor : Cursor
  /-- The runes of the token being built, the latest first. -/
  taken : List Char
  /-- Where the token being built starts. -/
  start : Nat
  /-- The open parentheses since the innermost open call. -/
  parens : Nat
  /-- The counts of open parentheses around each open call, the innermost call first. -/
  outer : List Nat
  /-- What is expected next; nothing when the tokens are over. -/
  state : Option State
  /-- Finished tokens that nobody has asked for yet. -/
  queue : List Token
  /-- The problem behind the error token, once that is finished. -/
  error : Option Diagnostic
  /-- The name of the input. -/
  file : String
deriving DecidableEq

namespace Lexer

/-- A lexer before everything that the cursor has yet to hand out. -/
def ofCursor (cursor : Cursor) (file : String) : Lexer :=
  ⟨cursor, [], 0, 0, [], some .statementHead, [], none, file⟩

/-- A lexer before the first of the given runes. -/
def ofRunes (runes : List Char) (file : String) : Lexer :=
  ofCursor (Cursor.ofRunes runes) file

/-- The place a lexer has come to: the runes before it are consumed. -/
def position (l : Lexer) : Position :=
  ⟨l.cursor.pos, l.file⟩

/-- The runes of the token being built. -/
def lexeme (l : Lexer) : List Char :=
  l.taken.reverse

/-- How many parentheses the open calls account for: one each, and the groups around each. -/
def callDepth : List Nat → Nat
  | [] => 0
  | parens :: outer => parens + 1 + callDepth outer

/-- How many parentheses are open, of groups and of calls. -/
def depth (l : Lexer) : Nat :=
  l.parens + callDepth l.outer

/-- The rune that the last look, skip or run has found next; none at the end of the input. -/
def ahead (l : Lexer) : Option Char :=
  l.cursor.slot

/-! ## Consuming runes -/

/-- Consumes the next rune into the token being built. -/
def take (l : Lexer) : Option Char × Lexer :=
  match l.cursor.read with
  | (none, c) => (none, { l with cursor := c })
  | (some r, c) =>
    (some r, { l with
      cursor := c
      taken := r :: l.taken
      start := if l.taken.isEmpty then l.cursor.pos else l.start })

/-- Consumes the next rune into the token being built, whichever it is. -/
def takeOne (l : Lexer) : Lexer :=
  l.take.2

/-- Gives the last rune of the token being built back to the input. -/
def giveBack (l : Lexer) : Lexer :=
  match l.taken with
  | [] => l
  | r :: taken => { l with taken, cursor := l.cursor.unread r }

/-- Looks at the next rune. -/
def peek (l : Lexer) : Lexer :=
  { l with cursor := l.cursor.peek }

/-- Skips blanks and looks at the rune after them. The token being built is left as it is. -/
def skipBlanks (l : Lexer) : Lexer :=
  { l with cursor := l.cursor.skipWhile Rune.isBlank }

theorem remaining_of_take {l m : Lexer} {r : Char} (h : l.take = (some r, m)) :
    l.cursor.remaining = r :: m.cursor.remaining := by
  simp only [take] at h
  split at h
  · simp at h
  · rename_i c d hr
    cases h
    exact Cursor.remaining_of_read hr

/-- Consumes runes while `p` holds of them, and looks at the first of which it does not. -/
def takeRun (p : Char → Bool) (l : Lexer) : Lexer :=
  match _h : l.take with
  | (none, m) => m
  | (some r, m) => if p r then m.takeRun p else m.giveBack
termination_by l.cursor.remaining.length
decreasing_by simp [remaining_of_take _h]

/-- Consumes operator runes while those of the token being built begin an operator of the given
arity, and looks at the first that does not carry on with one. -/
def munch (arity : Arity) (l : Lexer) : Lexer :=
  match _h : l.take with
  | (none, m) => m
  | (some r, m) =>
    if Rune.inOperator r && Operator.begins m.lexeme arity then m.munch arity else m.giveBack
termination_by l.cursor.remaining.length
decreasing_by simp [remaining_of_take _h]

/-! ## Counting parentheses -/

/-- A group opens. -/
def openGroup (l : Lexer) : Lexer :=
  { l with parens := l.parens + 1 }

/-- The innermost group closes. -/
def closeGroup (l : Lexer) : Lexer :=
  { l with parens := l.parens - 1 }

/-- The arguments of a call open, and are counted on their own. -/
def openCall (l : Lexer) : Lexer :=
  { l with parens := 0, outer := l.parens :: l.outer }

/-- The innermost group of the innermost call closes, or where there is none that call itself;
nothing closes where nothing is open. -/
def close (l : Lexer) : Option Lexer :=
  match l.parens, l.outer with
  | parens + 1, _ => some { l with parens }
  | 0, parens :: outer => some { l with parens, outer }
  | 0, [] => none

/-- Whether no parenthesis is open. -/
def isLevel (l : Lexer) : Bool :=
  l.parens = 0 && l.outer.isEmpty

/-! ## Finishing tokens -/

/-- Finishes the token being built as one of the given kind. -/
def emit (kind : Kind) (l : Lexer) : Lexer :=
  let token : Token := ⟨kind, String.ofList l.lexeme, l.start, l.start + l.taken.length, l.file⟩
  { l with taken := [], queue := l.queue ++ [token] }

/-- Expects `state` next. -/
def goto (state : State) (l : Lexer) : Lexer :=
  { l with state := some state }

/-- Expects nothing more. -/
def halt (l : Lexer) : Lexer :=
  { l with state := none }

/-- Gives up: finishes an error token in place of the token being built, and expects nothing more.
The problem stands where that token starts, or at the next rune where none has been started. -/
def fail (problem : Problem) (l : Lexer) : Lexer :=
  let offset := if l.taken.isEmpty then l.cursor.pos else l.start
  let position : Position := ⟨offset, l.file⟩
  { l with
    taken := []
    state := none
    queue := l.queue ++ [⟨.error, problem.message, Span.point position⟩]
    error := some ⟨problem, position⟩ }

end Lexer

end ExprYard
