import ExprYard.Diagnostic
import ExprYard.Tree

/-!
# Parsers

A parser builds syntax trees from tokens, one token at a time. It keeps two stacks: the `operands`
are finished trees, and the `pending` markers are operators, open parentheses, calls and
declarations that still wait for what belongs to them. A token either becomes an operand, waits as a
marker, or makes the parser fold the latest operands into the tree of the latest marker.

The order in which operators are folded comes from their `Binding` alone.

Both stacks are lists with the latest entry first. A step that fails keeps what it has done up to
that point, so a parser can be asked to go on after a failure; what it may then fold is still
bounded by the innermost open parenthesis and by the start of the statement.
-/

namespace ExprYard

/-- Something that waits for its operands. -/
inductive Marker where
  | operator (token : Token) (binding : Binding)
  /-- An open parenthesis, and how many operands there were when it opened. -/
  | paren (token : Token) (operands : Nat)
  /-- A called name or the word `tuple`, which waits for its parentheses. -/
  | call (token : Token)
  /-- The word `let`, which waits for its declaration. -/
  | letWord (token : Token)
deriving DecidableEq

/-- A parser at work. -/
structure Parser where
  /-- Finished trees, the latest first. -/
  operands : List Tree
  /-- Markers, the latest first. -/
  pending : List Marker
  /-- The problems that the tokens reported, the earliest first. -/
  diagnostics : List Diagnostic
  /-- How many operands there were when the current statement began. -/
  statementStart : Nat
deriving DecidableEq

namespace Parser

/-- A parser that has seen nothing. -/
def empty : Parser :=
  ⟨[], [], [], 0⟩

/-- The finished trees in source order. -/
def trees (p : Parser) : List Tree :=
  p.operands.reverse

/-- How many of the operands lie outside of the innermost open parenthesis, or before the current
statement where none is open. -/
def floor (p : Parser) : Nat :=
  go p.pending
where
  /-- The count kept by the latest open parenthesis among markers. -/
  go : List Marker → Nat
    | [] => p.statementStart
    | .paren _ operands :: _ => operands
    | _ :: markers => go markers

/-- How many operands may be folded. -/
def available (p : Parser) : Nat :=
  p.operands.length - p.floor

/-- The problem of a token that lacks an operand. -/
def missing (owner : Token) : Diagnostic :=
  ⟨.missingOperand owner.text, owner.position⟩

/-- The problem of a parenthesis or call that lacks its counterpart. -/
def mismatched (token : Token) : Diagnostic :=
  ⟨.mismatchedParenthesis, token.position⟩

/-- The problem of a token that belongs to no statement. -/
def stray (token : Token) : Diagnostic :=
  ⟨.unexpectedToken token.text, token.position⟩

/-- What a step leaves: the parser after it, and why it failed if it did. -/
abbrev Outcome := Parser × Option Diagnostic

/-- Adds a finished tree. -/
def shift (t : Tree) (p : Parser) : Parser :=
  { p with operands := t :: p.operands }

/-- Adds a marker. -/
def await (m : Marker) (p : Parser) : Parser :=
  { p with pending := m :: p.pending }

/-- Reports a problem without failing. -/
def report (d : Diagnostic) (p : Parser) : Parser :=
  { p with diagnostics := p.diagnostics ++ [d] }

/-- Folds the latest `count` operands into the tree of `token`, which fails where fewer than that
may be folded. -/
def fold (token : Token) (count : Nat) (p : Parser) : Outcome :=
  if p.available < count then (p, some (missing token))
  else
    let node := Tree.branch token (p.operands.take count).reverse
    ({ p with operands := node :: p.operands.drop count }, none)

/-- Folds the waiting operators that take their operands before `incoming` may have them. -/
def foldBefore (incoming : Binding) (p : Parser) : Outcome :=
  go p.pending p
where
  /-- Folds from the latest of the given markers, which are those of the parser. -/
  go : List Marker → Parser → Outcome
    | .operator token binding :: pending, p =>
      if binding.foldsBefore incoming then
        match fold token binding.arity.operands { p with pending } with
        | (p, none) => go pending p
        | failure => failure
      else (p, none)
    | _, p => (p, none)

/-- Takes an operator in. One that has a left operand first lets the tighter ones have theirs. -/
def pushOperator (token : Token) (binding : Binding) (p : Parser) : Outcome :=
  match binding.arity with
  | .unary => (p.await (.operator token binding), none)
  | .binary =>
    match p.foldBefore binding with
    | (p, none) => (p.await (.operator token binding), none)
    | failure => failure

/-- Folds the operators of the innermost group and takes its open parenthesis away. A group without
an operand becomes the empty tuple, which stands where `closing` does. -/
def endGroup (closing : Token) (p : Parser) : Outcome :=
  go p.pending p
where
  /-- Folds from the latest of the given markers, which are those of the parser. -/
  go : List Marker → Parser → Outcome
    | .operator token binding :: pending, p =>
      match fold token binding.arity.operands { p with pending } with
      | (p, none) => go pending p
      | failure => failure
    | .paren _ operands :: pending, p =>
      let p := { p with pending }
      (if operands < p.operands.length then p else p.shift (Tree.unit closing.span), none)
    | _ :: pending, p => ({ p with pending }, some (mismatched closing))
    | [], p => (p, some (mismatched closing))

/-- Takes a closing parenthesis in. The group that it ends is the argument of the call that waits
for it; where none does, the group is a value of its own. -/
def pushClosing (closing : Token) (p : Parser) : Outcome :=
  match p.endGroup closing with
  | (p, none) =>
    match p.pending with
    | .call token :: pending => fold token 1 { p with pending }
    | _ =>
      match p.operands with
      | [] => (p, none)
      | group :: operands => ({ p with operands := group.closeTuple :: operands }, none)
  | failure => failure

/-- Folds everything that waits, and begins a new statement. -/
def drain (p : Parser) : Outcome :=
  go p.pending p
where
  /-- Folds from the latest of the given markers, which are those of the parser. -/
  go : List Marker → Parser → Outcome
    | [], p => ({ p with statementStart := p.operands.length }, none)
    | .operator token binding :: pending, p =>
      match fold token binding.arity.operands { p with pending } with
      | (p, none) => go pending p
      | failure => failure
    | .letWord token :: pending, p =>
      match fold token 1 { p with pending } with
      | (p, none) => go pending p
      | failure => failure
    | .paren token _ :: pending, p => ({ p with pending }, some (mismatched token))
    | .call token :: pending, p => ({ p with pending }, some (mismatched token))

/-- Takes a token in. An error token or a refused one is reported and is no failure, and neither is
the end of the tokens. -/
def push (token : Token) (p : Parser) : Outcome :=
  match token.kind with
  | .error => (p.report ⟨.lexicalError token.text, token.position⟩, none)
  | .invalid => (p.report (stray token), none)
  | .eof => (p, none)
  | .integer | .float | .string | .char | .identifier | .emptyTuple =>
    (p.shift (Tree.leaf token), none)
  | .function | .type .tuple => (p.await (.call token), none)
  | .type _ => (p.shift (Tree.leaf token), none)
  | .openParen => (p.await (.paren token p.operands.length), none)
  | .closeParen => p.pushClosing token
  | .keyword .letWord => (p.await (.letWord token), none)
  | .keyword .semicolon => p.drain
  | .operator op => p.pushOperator token op.binding
  | .keyword word =>
    match word.binding with
    | some binding => p.pushOperator token binding
    | none => (p, some (stray token))

/-- Ends the tokens: folds everything that waits, and hands over the finished trees in source
order. -/
def finish (p : Parser) : Parser × Except Diagnostic (List Tree) :=
  match p.drain with
  | (p, none) => ({ p with operands := [], statementStart := 0 }, .ok p.trees)
  | (p, some failure) => (p, .error failure)

/-- Takes tokens in up to the first that fails, and counts those that did not. -/
def pushAll : List Token → Parser → Parser × Nat × Option Diagnostic
  | [], p => (p, 0, none)
  | t :: ts, p =>
    match p.push t with
    | (p, none) =>
      let (p, count, failure) := pushAll ts p
      (p, count + 1, failure)
    | (p, some failure) => (p, 0, some failure)

end Parser

end ExprYard
