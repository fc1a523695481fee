import ExprYard.Proofs.Lexer.Incremental
import Mathlib.Logic.Function.Iterate

/-!
# Runs of a lexer, step by step

A lexer is asked for its tokens one by one, and steps only as far as it must to answer. For what is
true of all its tokens that order does not matter: the tokens are those that are finished once
nothing more is expected, however many steps that takes. `tokens_eq_iterate` says so, and with it a
property that each step preserves (`iterate_invariant`) is one of all tokens of a source.

The second half is about lexers that are asked amid more input: what is handed out does not depend
on runes that were not read (`next_amid`).
-/

namespace ExprYard

namespace Lexer

/-! ## Steps one after the other -/

/-- What holds at first and is preserved by each step holds after any number of steps. -/
theorem iterate_invariant {P : Lexer → Prop} (hstep : ∀ l, P l → P l.step) {l : Lexer} (h : P l) :
    ∀ n, P (step^[n] l) := by
  intro n
  induction n generalizing l with
  | zero => exact h
  | succ n ih => exact ih (hstep l h)

/-- The tokens that are finished beforehand make no difference to the steps. -/
theorem iterate_amid (earlier : List Token) (n : Nat) (l : Lexer) :
    step^[n] (l.amid earlier [] false) = (step^[n] l).amid earlier [] false := by
  induction n generalizing l with
  | zero => rfl
  | succ n ih =>
    show step^[n] (l.amid earlier [] false).step = _
    rw [incremental_step.amid earlier [] false l (.inl rfl)]
    exact ih l.step

/-- The lexer without its finished tokens. -/
def emptied (l : Lexer) : Lexer :=
  { l with queue := [] }

theorem emptied_amid (earlier : List Token) (l : Lexer) :
    (l.amid earlier [] false).emptied = l.emptied := by
  simp [emptied, amid, Cursor.amid]

theorem settle_eq_of_expecting {l : Lexer} {state : State} (hq : l.queue = [])
    (hs : l.state = some state) : l.settle = l.step.settle := by
  rw [settle]
  split
  · rfl
  · rename_i hne
    exact (hne state hq hs).elim

/-- A lexer that settles has made some steps. -/
theorem settle_eq_iterate (l : Lexer) : ∃ n, l.settle = step^[n] l := by
  fun_induction settle l with
  | case1 l state hs hq ih =>
    obtain ⟨n, hn⟩ := ih
    exact ⟨n + 1, hn⟩
  | case2 l => exact ⟨0, rfl⟩

/-- A lexer that has settled has a finished token or expects nothing more. -/
theorem state_settle {l : Lexer} (h : l.settle.queue = []) : l.settle.state = none := by
  fun_induction settle l with
  | case1 l state hs hq ih => exact ih h
  | case2 l hne =>
    cases hs : l.state with
    | none => rfl
    | some state => exact (hne state h hs).elim

theorem next_eq_none {l m : Lexer} (h : l.next = (none, m)) :
    l.settle = m ∧ m.queue = [] ∧ m.state = none := by
  unfold next at h
  dsimp only at h
  split at h
  · rename_i hq
    cases h
    exact ⟨rfl, hq, state_settle hq⟩
  · cases h

theorem next_eq_some {l m : Lexer} {t : Token} (h : l.next = (some t, m)) :
    l.settle = m.amid [t] [] false := by
  unfold next at h
  dsimp only at h
  split at h
  · cases h
  · rename_i u queue hq
    cases h
    show l.settle = { l.settle with queue := t :: queue, cursor := l.settle.cursor.amid [] false }
    rw [← hq]
    simp [Cursor.amid]

/-- The tokens of a lexer are those that are finished once nothing more is expected, and the lexer
that is left is the one of that moment without them. -/
theorem tokens_eq_iterate (l : Lexer) : ∃ n, (step^[n] l).state = none ∧
    l.tokens.1 = (step^[n] l).queue ∧ l.tokens.2 = (step^[n] l).emptied := by
  fun_induction tokens l with
  | case1 l m h =>
    obtain ⟨n, hn⟩ := settle_eq_iterate l
    obtain ⟨hm, hq, hs⟩ := next_eq_none h
    refine ⟨n, ?_, ?_, ?_⟩ <;> rw [← hn, hm]
    · exact hs
    · exact hq.symm
    · rw [emptied, ← hq]
  | case2 l t m h rest ih =>
    obtain ⟨k, hk⟩ := settle_eq_iterate l
    obtain ⟨n, hs, hq, he⟩ := ih
    have hrun : step^[n + k] l = (step^[n] m).amid [t] [] false := by
      rw [Function.iterate_add_apply, ← hk, next_eq_some h, iterate_amid]
    refine ⟨n + k, ?_, ?_, ?_⟩ <;> rw [hrun]
    · exact hs
    · show t :: rest.1 = t :: (step^[n] m).queue
      rw [← hq]
    · rw [emptied_amid]
      exact he

/-! ## Requests amid more input -/

theorem ended_settle {l : Lexer} (h : l.cursor.ended = true) : l.settle.cursor.ended = true := by
  fun_induction settle l with
  | case1 l state hs hq ih => exact ih (incremental_step.ended l h)
  | case2 l => exact h

theorem settle_amid {later : List Char} (told : Bool) {l : Lexer}
    (h : later = [] ∨ l.settle.cursor.ended = false) :
    (l.amid [] later told).settle = l.settle.amid [] later told := by
  fun_induction settle l with
  | case1 l state hs hq ih =>
    have hn : later = [] ∨ l.step.cursor.ended = false := h.imp_right fun he =>
      Bool.eq_false_iff.mpr fun hn => Bool.eq_false_iff.mp he (ended_settle hn)
    rw [settle_eq_of_expecting (l := l.amid [] later told) hq hs,
      incremental_step.amid [] later told l hn]
    exact ih h
  | case2 l hne =>
    rw [settle]
    split
    · rename_i state hq hs
      exact (hne state hq hs).elim
    · rfl

/-- A lexer that finds its next token without coming to the end of its runes finds the same one with
more runes behind them. -/
theorem next_amid {later : List Char} {told : Bool} {l : Lexer}
    (h : later = [] ∨ l.next.2.cursor.ended = false) :
    (l.amid [] later told).next = (l.next.1, l.next.2.amid [] later told) := by
  have hc : l.next.2.cursor = l.settle.cursor := by
    unfold next
    dsimp only
    split <;> rfl
  rw [hc] at h
  have hs := settle_amid told h
  unfold next
  rw [hs]
  have hq : (l.settle.amid [] later told).queue = l.settle.queue := rfl
  dsimp only
  rw [hq]
  split <;> rfl

end Lexer

end ExprYard
