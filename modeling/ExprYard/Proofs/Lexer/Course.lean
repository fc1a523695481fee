import ExprYard.Proofs.Lexer.Account
import ExprYard.Proofs.Lexer.Runs

/-!
# The course of a run

A lexer works its way through an input turn by turn, and then either comes to the end of the input
or gives up. `Course` says where it can be after any number of steps, and what that has to do with
where it began: the tokens that it has finished tile the runes that it has spent, and the turns that
it has made lead to what it expects.

`course_iterate` is the only place where steps are counted. What is true of all tokens of a source
is read off the course of its lexer.
-/

namespace ExprYard

/-- Turns one after the other. -/
inductive Turns (c : Control) : List Token → Control → Prop where
  | start : Turns c [] c
  | next {ts us : List Token} {d e : Control} (before : Turns c ts d) (turn : Turn d us e) :
      Turns c (ts ++ us) e

/-- All that a lexer finishes as it goes on are tokens of its text. -/
theorem Turns.isSpoken {c d : Control} {ts : List Token} (h : Turns c ts d) :
    ∀ t ∈ ts, t.kind.isSpoken = true := by
  induction h with
  | start =>
    intro t ht
    cases ht
  | next before turn ih =>
    intro t ht
    rcases List.mem_append.mp ht with ht | ht
    · exact ih t ht
    · exact turn.isSpoken t ht

namespace Lexer

/-- A lexer that began as `l` has finished the tokens `ts` and goes on in `state`. -/
structure Working (l : Lexer) (ts : List Token) (state : State) (m : Lexer) : Prop where
  covers : Covers l ts m
  turns : Turns ⟨.statementHead, 0, []⟩ ts ⟨state, m.parens, m.outer⟩
  expects : m.state = some state
  queue : m.queue = l.queue ++ ts
  error : m.error = l.error
  poised : Poised state m

/-- Where a lexer that began as `l` can be. -/
inductive Course (l : Lexer) : Lexer → Prop where
  /-- It is at work. -/
  | working {m : Lexer} {ts : List Token} {state : State} (work : Working l ts state m) :
      Course l m
  /-- It has come to the end of the input. -/
  | halted {m n : Lexer} {ts : List Token} {state : State} (work : Working l ts state m)
      (quiet : Quiet m n) (hs : state.mayEnd = true) (spent : n.unspent = []) : Course l n.halt
  /-- It has given up. -/
  | failed {m n : Lexer} {ts : List Token} {state : State} (work : Working l ts state m)
      (quiet : Quiet m n) (problem : Problem) : Course l (n.fail problem)

variable {l m n : Lexer} {ts us : List Token} {state next : State}

/-- Going on adds to what a lexer has done. -/
theorem Working.went (h : Working l ts state m) (covers : Covers m us n)
    (turn : Turn ⟨state, m.parens, m.outer⟩ us ⟨next, n.parens, n.outer⟩)
    (expects : n.state = some next) (queue : n.queue = m.queue ++ us) (error : n.error = m.error)
    (poised : Poised next n) : Working l (ts ++ us) next n where
  covers := h.covers.trans covers
  turns := h.turns.next turn
  expects := expects
  queue := by rw [queue, h.queue, List.append_assoc]
  error := error.trans h.error
  poised := poised

theorem step_of_none (h : l.state = none) : l.step = l := by
  unfold step
  rw [h]

/-- Each step keeps a lexer on its course. -/
theorem course_step (h : Course l m) : Course l m.step := by
  cases h with
  | working work =>
    have did := did_step work.expects work.poised
    generalize m.step = m' at did
    cases did with
    | went covers turn expects queue error poised =>
      exact .working (work.went covers turn expects queue error poised)
    | halted quiet hs spent => exact .halted work quiet hs spent
    | failed quiet problem => exact .failed work quiet problem
  | halted work quiet hs spent =>
    rw [step_of_none rfl]
    exact .halted work quiet hs spent
  | failed work quiet problem =>
    rw [step_of_none rfl]
    exact .failed work quiet problem

/-- A lexer before a source is at work, with nothing done. -/
theorem working_ofRunes (source : List Char) (file : String) :
    Working (ofRunes source file) [] .statementHead (ofRunes source file) where
  covers := quiet_refl.covers
  turns := .start
  expects := rfl
  queue := rfl
  error := rfl
  poised := rfl

/-- After any number of steps a lexer is on its course. -/
theorem course_iterate (source : List Char) (file : String) (n : Nat) :
    Course (ofRunes source file) (step^[n] (ofRunes source file)) :=
  iterate_invariant (P := Course (ofRunes source file)) (fun _ => course_step)
    (.working (working_ofRunes source file)) n

/-! ## All tokens -/

/-- The report that a lexer gives up with. -/
def report (d : Diagnostic) : Token :=
  ⟨.error, d.problem.message, Span.point d.position⟩

/-- A lexer that gives up has one more token, the report of the problem at its offset. -/
theorem queue_fail (problem : Problem) (l : Lexer) :
    (l.fail problem).queue = l.queue ++ [report ⟨problem, ⟨l.offset, l.file⟩⟩] := rfl

theorem error_fail (problem : Problem) (l : Lexer) :
    (l.fail problem).error = some ⟨problem, ⟨l.offset, l.file⟩⟩ := rfl

/-- After any number of steps, what a lexer has finished are the tokens of its turns, and its report
if it has given up, and it counts what the turns count. -/
theorem turns_iterate (source : List Char) (file : String) (n : Nat) :
    ∃ (ts late : List Token) (state : State),
      (step^[n] (ofRunes source file)).queue = ts ++ late ∧
      (late = [] ∨ ∃ d, late = [report d]) ∧
      Turns ⟨.statementHead, 0, []⟩ ts
        ⟨state, (step^[n] (ofRunes source file)).parens,
          (step^[n] (ofRunes source file)).outer⟩ := by
  have course := course_iterate source file n
  generalize step^[n] (ofRunes source file) = final at course
  cases course with
  | @working m ts state work =>
    exact ⟨ts, [], state, by rw [work.queue]; simp [ofRunes, ofCursor], .inl rfl, work.turns⟩
  | @halted m n ts state work quiet =>
    refine ⟨ts, [], state, ?_, .inl rfl, ?_⟩
    · show n.queue = _
      rw [quiet.queue, work.queue]
      simp [ofRunes, ofCursor]
    · show Turns _ _ ⟨state, n.parens, n.outer⟩
      rw [quiet.parens, quiet.outer]
      exact work.turns
  | @failed m n ts state work quiet problem =>
    refine ⟨ts, [report ⟨problem, ⟨n.offset, n.file⟩⟩], state, ?_, .inr ⟨_, rfl⟩, ?_⟩
    · rw [queue_fail, quiet.queue, work.queue]
      rfl
    · show Turns _ _ ⟨state, n.parens, n.outer⟩
      rw [quiet.parens, quiet.outer]
      exact work.turns

/-- All tokens of a source, and the lexer after them: it has come to the end of the input, or it has
given up and its report is the last token. -/
theorem tokens_cases (source : List Char) (file : String) :
    ∃ (ts : List Token) (state : State) (m n : Lexer),
      Working (ofRunes source file) ts state m ∧ Quiet m n ∧
      (state.mayEnd = true ∧ n.unspent = [] ∧
          (ofRunes source file).tokens = (ts, n.halt.emptied) ∨
        ∃ problem : Problem, (ofRunes source file).tokens
          = (ts ++ [report ⟨problem, ⟨n.offset, n.file⟩⟩], (n.fail problem).emptied)) := by
  obtain ⟨k, hs, hq, he⟩ := tokens_eq_iterate (ofRunes source file)
  have course := course_iterate source file k
  generalize step^[k] (ofRunes source file) = final at hs hq he course
  cases course with
  | working work =>
    rw [work.expects] at hs
    cases hs
  | @halted m n ts state work quiet hend spent =>
    refine ⟨ts, state, m, n, work, quiet, .inl ⟨hend, spent, Prod.ext ?_ he⟩⟩
    rw [hq]
    show n.queue = ts
    rw [quiet.queue, work.queue]
    rfl
  | @failed m n ts state work quiet problem =>
    refine ⟨ts, state, m, n, work, quiet, .inr ⟨problem, Prod.ext ?_ he⟩⟩
    rw [hq, queue_fail, quiet.queue, work.queue]
    rfl

end Lexer

end ExprYard
