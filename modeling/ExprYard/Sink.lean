import ExprYard.Token

/-!
# Sinks

A sink is whatever takes tokens one at a time and may have enough before they are over: a parser
that has met a fault, or a reader that wanted the first few only. Stating it once lets the same sink
be fed from a list, from a lexer, and from the far end of a pipeline.
-/

namespace ExprYard

/-- A consumer of tokens with states `σ`. -/
structure Sink (σ : Type) where
  /-- Whether the consumer asks for another token. -/
  wants : σ → Bool
  /-- What the consumer makes of a token. -/
  accept : σ → Token → σ

namespace Sink

/-- Feeds tokens to a sink for as long as it wants them. -/
def feed {σ : Type} (sink : Sink σ) : σ → List Token → σ
  | s, [] => s
  | s, t :: ts => if sink.wants s then sink.feed (sink.accept s t) ts else s

/-- Keeps every token, the latest first, up to a number of tokens if one is given. -/
def keeping (limit : Option Nat) : Sink (List Token) where
  wants kept := match limit with
    | none => true
    | some n => kept.length < n
  accept kept t := t :: kept

theorem feed_of_not_wants {σ : Type} {sink : Sink σ} {s : σ} (h : sink.wants s = false)
    (ts : List Token) : sink.feed s ts = s := by
  cases ts <;> simp [feed, h]

end Sink

end ExprYard
