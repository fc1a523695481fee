import ExprYard.Proofs.Lexer.Course

/-!
# What is handed out on request

A lexer that gives up finishes nothing before its report in the same step, and it steps only when
nothing is finished. So whoever takes its tokens one by one gets the report as the last of them, and
as long as other tokens come the lexer has met no problem (`Clean.next_some`).
-/

namespace ExprYard

namespace Lexer

/-- A lexer that has met no problem. -/
structure Clean (l : Lexer) : Prop where
  error : l.error = none
  spoken : ∀ t ∈ l.queue, t.kind.isSpoken = true
  poised : ∀ state, l.state = some state → Poised state l

/-- A lexer that has given up, and has the tokens `ts` still to hand out. -/
structure GaveUp (d : Diagnostic) (ts : List Token) (l : Lexer) : Prop where
  error : l.error = some d
  queue : l.queue = ts
  stopped : l.state = none

variable {l m : Lexer} {t : Token}

theorem clean_ofRunes (source : List Char) (file : String) : Clean (ofRunes source file) where
  error := rfl
  spoken := by
    intro t ht
    cases ht
  poised := by
    intro state hs
    cases hs
    rfl

/-- A step of a clean lexer that has nothing finished finishes tokens of the text or its report. -/
theorem Clean.step {state : State} (h : Clean l) (hq : l.queue = []) (hs : l.state = some state) :
    Clean l.step ∨ ∃ d, GaveUp d [report d] l.step := by
  have did := did_step hs (h.poised state hs)
  generalize l.step = m at did
  cases did with
  | @went m next ts covers turn expects queue error poised =>
    refine .inl ⟨error.trans h.error, ?_, ?_⟩
    · rw [queue, hq]
      exact turn.isSpoken
    · intro state' hs'
      rw [expects] at hs'
      cases hs'
      exact poised
  | @halted n quiet =>
    refine .inl ⟨quiet.error.trans h.error, ?_, ?_⟩
    · intro t ht
      rw [show n.halt.queue = l.queue from quiet.queue, hq] at ht
      cases ht
    · intro state' hs'
      cases hs'
  | @failed n quiet problem =>
    refine .inr ⟨_, error_fail problem n, ?_, rfl⟩
    rw [queue_fail, quiet.queue, hq]
    rfl

theorem settle_of_over (h : l.state = none) : l.settle = l := by
  rw [settle]
  split
  · rename_i state _ hs
    rw [h] at hs
    cases hs
  · rfl

theorem Clean.settle (h : Clean l) : Clean l.settle ∨ ∃ d, GaveUp d [report d] l.settle := by
  fun_induction Lexer.settle l with
  | case1 l state hs hq ih =>
    rcases h.step hq hs with clean | ⟨d, gaveUp⟩
    · exact ih clean
    · rw [settle_of_over gaveUp.stopped]
      exact .inr ⟨d, gaveUp⟩
  | case2 l => exact .inl h

/-- A clean lexer that has no token left has met no problem. -/
theorem Clean.next_none (h : Clean l) (hn : l.next = (none, m)) : Clean m := by
  obtain ⟨hm, hq, hs⟩ := next_eq_none hn
  rcases h.settle with clean | ⟨d, gaveUp⟩
  · rw [hm] at clean
    exact clean
  · have hd := gaveUp.queue
    rw [hm, hq] at hd
    cases hd

/-- What a clean lexer hands out is a token of the text, and it has met no problem; or it is the
report of the problem that it has met. -/
theorem Clean.next_some (h : Clean l) (hn : l.next = (some t, m)) :
    (Clean m ∧ t.kind.isSpoken = true) ∨ ∃ d, GaveUp d [] m ∧ t = report d := by
  have hm := next_eq_some hn
  have hc : m.cursor.amid [] false = m.cursor := by simp [Cursor.amid]
  have same : m.amid [t] [] false = { m with queue := t :: m.queue } := by
    unfold amid
    rw [hc]
    rfl
  rw [same] at hm
  rcases h.settle with clean | ⟨d, gaveUp⟩
  · rw [hm] at clean
    refine .inl ⟨⟨clean.error, fun u hu => clean.spoken u (List.mem_cons_of_mem t hu), ?_⟩,
      clean.spoken t List.mem_cons_self⟩
    intro state hs
    have hp := clean.poised state hs
    cases state <;> exact hp
  · rw [hm] at gaveUp
    obtain ⟨rfl, hq⟩ := List.cons.inj gaveUp.queue
    exact .inr ⟨d, ⟨gaveUp.error, hq, gaveUp.stopped⟩, rfl⟩

/-- A lexer that has given up and handed its report out has no more tokens. -/
theorem GaveUp.next {d : Diagnostic} (h : GaveUp d [] l) : l.next = (none, l) := by
  unfold Lexer.next
  rw [settle_of_over h.stopped]
  dsimp only
  rw [h.queue]

end Lexer

end ExprYard
