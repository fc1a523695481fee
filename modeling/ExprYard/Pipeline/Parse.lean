import ExprYard.Parser.Parse
import ExprYard.Pipeline.Network
import ExprYard.Pipeline.Relay

/-!
# Work done in a pipeline

What comes out of a pipeline once its workers have stopped: the trees of a source, some of its
tokens, or some of its runes. The parser of a pipeline sees of a lexical problem only its message,
so the lexer's own report takes the place of such a failure, and of no other.
-/

namespace ExprYard

namespace Network

/-- The result of a pipeline whose consumer is a parser. -/
def conclude (n : Network Intake) : Except Diagnostic (List Tree) :=
  match n.state.conclude.2, n.error with
  | .error failure, some error =>
    match failure.problem with
    | .lexicalError _ => .error error
    | _ => .error failure
  | result, _ => result

end Network

namespace Pipeline

/-- Parses a source with its runes, its tokens and its trees at work side by side. -/
def parse (source : List Char) (file : String) : Except Diagnostic (List Tree) :=
  ((Network.start source file Intake.start).run Intake.sink).conclude

/-- What a consumer of tokens and the lexer before it come away with. -/
structure Haul where
  tokens : List Token
  error : Option Diagnostic
  /-- Whether the producer stopped of itself. -/
  producerStopped : Bool

/-- The first tokens of a source, up to a number if one is given, from a lexer at work beside their
consumer. -/
def takeTokens (source : List Char) (file : String) (limit : Option Nat) : Haul :=
  let n := (Network.start source file []).run (Sink.keeping limit)
  ⟨n.state.reverse, n.error, !n.producing⟩

/-- The first runes of a source, up to a number if one is given, from a producer at work beside
their consumer, and whether the producer stopped of itself. -/
def takeRunes (source : List Char) (limit : Option Nat) : List Char × Bool :=
  let n := (Relay.start source limit).run
  (n.received, !n.producing)

end Pipeline

end ExprYard
