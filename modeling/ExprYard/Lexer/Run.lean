import ExprYard.Lexer.Progress
import ExprYard.Sink

/-!
# Runs of a lexer

A lexer works only when it is asked for a token, and only until it has finished one. `next` is that
request; `tokens` asks until there are no more, and `drain` for as long as a sink wants more, so
that a reader who has enough leaves the rest of the input alone.

All of them end because steps and requests lower the lexer's potential.
-/

namespace ExprYard

namespace Lexer

/-- Steps until some token is finished or nothing more is expected. -/
def settle (l : Lexer) : Lexer :=
  match l.queue, _h : l.state with
  | [], some _ => l.step.settle
  | _, _ => l
termination_by l.potential
decreasing_by exact potential_step_lt _h

/-- Hands out the next token, if there is one. -/
def next (l : Lexer) : Option Token × Lexer :=
  let l := l.settle
  match l.queue with
  | [] => (none, l)
  | t :: queue => (some t, { l with queue })

theorem potential_settle_le (l : Lexer) : l.settle.potential ≤ l.potential := by
  fun_induction settle l with
  | case1 l state hs hq ih =>
    have := potential_step_lt hs
    omega
  | case2 l => exact Nat.le_refl _

/-- Each token that is handed out lowers the potential. -/
theorem potential_of_next {l m : Lexer} {t : Token} (h : l.next = (some t, m)) :
    m.potential < l.potential := by
  have hs := potential_settle_le l
  simp only [next] at h
  split at h
  · cases h
  · rename_i u queue hq
    cases h
    simp only [potential, stock, hq, List.length_cons] at hs ⊢
    omega

/-- All tokens that a lexer has yet to hand out, and the lexer after them. -/
def tokens (l : Lexer) : List Token × Lexer :=
  match _h : l.next with
  | (none, m) => ([], m)
  | (some t, m) =>
    let rest := m.tokens
    (t :: rest.1, rest.2)
termination_by l.potential
decreasing_by exact potential_of_next _h

/-- Feeds a sink for as long as it wants tokens and there are some. No token is asked for that the
sink does not want. -/
def drain {σ : Type} (sink : Sink σ) (s : σ) (l : Lexer) : σ × Lexer :=
  if sink.wants s then
    match _h : l.next with
    | (none, m) => (s, m)
    | (some t, m) => m.drain sink (sink.accept s t)
  else (s, l)
termination_by l.potential
decreasing_by exact potential_of_next _h

/-- What a sink makes of a lexer's tokens is what it makes of their list. -/
theorem drain_fst {σ : Type} (sink : Sink σ) (s : σ) (l : Lexer) :
    (l.drain sink s).1 = sink.feed s l.tokens.1 := by
  fun_induction drain sink s l with
  | case1 s l hw m h =>
    rw [tokens]
    split
    · rfl
    · rename_i t n hn
      rw [h] at hn
      cases hn
  | case2 s l hw t m h ih =>
    rw [ih, tokens.eq_def l]
    split
    · rename_i n hn
      rw [h] at hn
      cases hn
    · rename_i u n hn
      rw [h] at hn
      cases hn
      simp [Sink.feed, hw]
  | case3 s l hw =>
    rw [Sink.feed_of_not_wants (by simpa using hw)]

end Lexer

/-- All tokens of a source and the token that ends them, or the problem that the source has. -/
def tokenize (source : List Char) (file : String) : Except Diagnostic (List Token) :=
  let (tokens, l) := (Lexer.ofRunes source file).tokens
  match l.error with
  | some error => .error error
  | none => .ok (tokens ++ [Token.endOfInput l.position])

end ExprYard
