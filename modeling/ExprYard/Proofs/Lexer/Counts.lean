import ExprYard.Proofs.Parser.Balance

/-!
# What a lexer counts

A lexer has one count for the parentheses of tuple types and of groups, puts it away where a call
opens and takes it back where the call closes. At every step the counts come to what has been opened
and not been closed among the tokens that are finished (`counts_in_order`). They also agree with
what is expected: nothing is counted where a statement begins and where the head of a declaration
ends, so that nothing is carried over from a tuple type or a statement to what follows it, and
within a tuple type its parenthesis is counted, so that there is one to take off where it closes.

All of this is a matter of the turns of a lexer. `Turn.balance` says what a turn does to the counts,
and `Tallied` is what each turn keeps of their agreement with what is expected.
-/

namespace ExprYard

open Lexer

/-! ## Turns -/

namespace State

/-- Whether a state comes before the first operand of a statement. -/
def isHead : State → Bool
  | .statementHead | .leadingWord | .letName | .letType | .tupleTypeOpen | .tupleTypeNext
  | .letAssign => true
  | _ => false

/-- Whether a state comes before the first operand of a statement and is not within a type. -/
def isShut : State → Bool
  | .statementHead | .leadingWord | .letName | .letAssign => true
  | _ => false

theorem isHead_of_isShut {s : State} (h : s.isShut = true) : s.isHead = true := by
  cases s <;> first | rfl | cases h

/-- Only the first word of a statement is left to another state before the first operand. -/
theorem of_isHead_of_silent {s s' : State} (hs : s' ∈ s.silent) (h : s'.isHead = true) :
    s = .statementHead ∧ s' = .leadingWord := by
  cases s <;> cases s' <;>
    first | exact ⟨rfl, rfl⟩ | exact absurd hs (by decide) | cases h

end State

/-- How many parentheses are counted as open: those of the innermost call, the calls, and those
outside of each. -/
def Control.depth (c : Control) : Nat :=
  c.parens + c.outer.length + c.outer.sum

theorem opens_append (ts us : List Token) : opens (ts ++ us) = opens ts + opens us :=
  List.countP_append

theorem closes_append (ts us : List Token) : closes (ts ++ us) = closes ts + closes us :=
  List.countP_append

/-- Tokens that are no parentheses open and close nothing. -/
theorem opens_closes_of_plain {ts : List Token}
    (h : ∀ t ∈ ts, t.kind ≠ .openParen ∧ t.kind ≠ .closeParen) : opens ts = 0 ∧ closes ts = 0 := by
  refine ⟨List.countP_eq_zero.mpr fun t ht => ?_, List.countP_eq_zero.mpr fun t ht => ?_⟩
  · simpa using (h t ht).1
  · simpa using (h t ht).2

theorem opens_closes_of_open {t : Token} (h : t.kind = .openParen) :
    opens [t] = 1 ∧ closes [t] = 0 := by
  simp [opens, closes, h]

theorem opens_closes_of_close {t : Token} (h : t.kind = .closeParen) :
    opens [t] = 0 ∧ closes [t] = 1 := by
  simp [opens, closes, h]

theorem Kind.not_paren_of_value {k : Kind} (h : k.isLiteral = true ∨ k = .identifier) :
    k ≠ .openParen ∧ k ≠ .closeParen := by
  cases k <;> simp_all [Kind.isLiteral]

/-- What a turn opens and closes it counts. -/
theorem Turn.balance {c d : Control} {ts : List Token} (h : Turn c ts d) :
    d.depth + closes ts = c.depth + opens ts := by
  cases h with
  | silent => rfl
  | @value t s p os hs h =>
    have hplain : ∀ u ∈ [t], u.kind ≠ .openParen ∧ u.kind ≠ .closeParen := by
      intro u hu
      rw [List.mem_singleton.mp hu]
      exact Kind.not_paren_of_value h
    obtain ⟨hopens, hcloses⟩ := opens_closes_of_plain hplain
    rw [hopens, hcloses]
    rfl
  | @openCall t o p os h ho =>
    obtain ⟨hopens, hcloses⟩ := opens_closes_of_open ho
    have hname : opens [t] = 0 ∧ closes [t] = 0 := by simp [opens, closes, h]
    rw [show [t, o] = [t] ++ [o] from rfl, opens_append, closes_append, hopens, hcloses, hname.1,
      hname.2]
    simp only [Control.depth, List.length_cons, List.sum_cons]
    omega
  | typed h hc => simp [Control.depth, opens, closes, h, hc]
  | letWord h | untyped h | tupleWord h | elementType h | wholeType h | typeComma h | assign h
  | binary h | unary h | comma h | semicolon h =>
    simp [Control.depth, opens, closes, h]
  | openTuple h | openGroup h =>
    obtain ⟨hopens, hcloses⟩ := opens_closes_of_open h
    rw [hopens, hcloses]
    simp only [Control.depth]
    omega
  | closeInnerTuple h | closeOuterTuple h | closeGroup h | closeCall h =>
    obtain ⟨hopens, hcloses⟩ := opens_closes_of_close h
    rw [hopens, hcloses]
    simp only [Control.depth, List.length_cons, List.sum_cons]
    omega

/-- The counts agree with what is expected. -/
structure Tallied (c : Control) : Prop where
  /-- No call is open before the first operand of a statement. -/
  calls : c.state.isHead = true → c.outer = []
  /-- No parenthesis is open either, except within a type. -/
  groups : c.state.isShut = true → c.parens = 0
  /-- Behind an element of a tuple type the parenthesis of the tuple is open. -/
  tuples : c.state = .tupleTypeNext → 0 < c.parens

theorem Turn.tallied {c d : Control} {ts : List Token} (h : Turn c ts d) (hc : Tallied c) :
    Tallied d := by
  obtain ⟨calls, groups, tuples⟩ := hc
  cases h with
  | @silent s s' p os hs =>
    refine ⟨fun hh => ?_, fun hh => ?_, fun hh => ?_⟩
    · obtain ⟨rfl, rfl⟩ := State.of_isHead_of_silent hs hh
      exact calls rfl
    · obtain ⟨rfl, rfl⟩ := State.of_isHead_of_silent hs (State.isHead_of_isShut hh)
      exact groups rfl
    · obtain rfl : s' = .tupleTypeNext := hh
      cases (State.of_isHead_of_silent hs rfl).2
  | letWord | untyped => exact ⟨fun _ => calls rfl, fun _ => groups rfl, by simp⟩
  | typed | tupleWord | openTuple | typeComma =>
    exact ⟨fun _ => calls rfl, by simp [State.isShut], by simp⟩
  | elementType | closeInnerTuple =>
    exact ⟨fun _ => calls rfl, by simp [State.isShut], fun _ => Nat.succ_pos _⟩
  | wholeType | closeOuterTuple => exact ⟨fun _ => calls rfl, fun _ => rfl, by simp⟩
  | semicolon => exact ⟨fun _ => rfl, fun _ => rfl, by simp⟩
  | assign | openGroup | openCall | value | binary | unary | closeGroup | closeCall | comma =>
    exact ⟨by simp [State.isHead], by simp [State.isShut], by simp⟩

/-- Where a statement begins and where the head of a declaration ends, a turn counts nothing. -/
theorem Turn.keeps_counts {c d : Control} {ts : List Token} (h : Turn c ts d)
    (hs : c.state = .statementHead ∨ c.state = .letAssign) :
    d.parens = c.parens ∧ d.outer = c.outer := by
  cases h <;> first | exact ⟨rfl, rfl⟩ | (rcases hs with hs | hs <;> cases hs)

theorem Turns.balance {c d : Control} {ts : List Token} (h : Turns c ts d) :
    d.depth + closes ts = c.depth + opens ts := by
  induction h with
  | start => rfl
  | next before turn ih =>
    have hturn := turn.balance
    rw [opens_append, closes_append]
    omega

theorem Turns.tallied {c d : Control} {ts : List Token} (h : Turns c ts d) (hc : Tallied c) :
    Tallied d := by
  induction h with
  | start => exact hc
  | next before turn ih => exact turn.tallied ih

/-! ## Runs -/

namespace Lexer

/-- What a lexer counts and the tokens that it has finished, and what it counts and what it
expects. -/
structure Counts (l : Lexer) : Prop where
  /-- What is counted as open has been opened and has not been closed. -/
  balance : l.parens + l.outer.length + l.outer.sum + closes l.queue = opens l.queue
  /-- No call is open where a statement begins, at its first word, or in a declaration before its
  value. -/
  calls : ∀ state, l.state = some state → state.isHead = true → l.outer = []
  /-- No parenthesis is open there either, except within a type. -/
  groups : ∀ state, l.state = some state → state.isShut = true → l.parens = 0
  /-- Behind an element of a tuple type the parenthesis of the tuple is open, -/
  tuples : l.state = some .tupleTypeNext → 0 < l.parens
  /-- and if it closes there, it is taken off the count. -/
  closing : l.state = some .tupleTypeNext → l.skipBlanks.ahead = some ')' →
    l.step.parens + 1 = l.parens
  /-- Nothing is open in what follows a statement or the head of a declaration. -/
  fresh : ∀ state, l.state = some state → state = .statementHead ∨ state = .letAssign →
    l.step.parens = 0 ∧ l.step.outer = []

variable {l m : Lexer} {ts : List Token} {state : State}

/-- Where a parenthesis closes behind an element of a tuple type, the count is lowered. -/
theorem parens_step_of_closing (hs : l.state = some .tupleTypeNext)
    (ha : l.skipBlanks.ahead = some ')') : l.step.parens = l.parens - 1 := by
  have hq : l.skipBlanks.takeOne.parens = l.parens := by
    rw [(took_skipBlanks ha).same]
    rfl
  unfold step
  rw [hs]
  dsimp only [scan]
  unfold scanTupleTypeNext
  dsimp only
  rw [if_pos ha, ← hq]
  rfl

/-- A step keeps the counts where its turns do. -/
theorem counts_step (hs : l.state = some state) (hp : Poised state l)
    (h : state = .statementHead ∨ state = .letAssign) :
    l.step.parens = l.parens ∧ l.step.outer = l.outer := by
  have did := did_step hs hp
  generalize l.step = m at did
  cases did with
  | went covers turn => exact turn.keeps_counts h
  | halted quiet => exact ⟨quiet.parens, quiet.outer⟩
  | failed quiet => exact ⟨quiet.parens, quiet.outer⟩

theorem Working.tallied (h : Working l ts state m) : Tallied ⟨state, m.parens, m.outer⟩ :=
  h.turns.tallied ⟨fun _ => rfl, fun _ => rfl, by simp⟩

theorem Working.counts {source : List Char} {file : String}
    (h : Working (ofRunes source file) ts state m)
    (balance : m.parens + m.outer.length + m.outer.sum + closes m.queue = opens m.queue) :
    Counts m := by
  have tallied := h.tallied
  have same : ∀ state', m.state = some state' → state' = state := fun state' hs =>
    Option.some.inj (hs.symm.trans h.expects)
  refine ⟨balance, ?_, ?_, ?_, ?_, ?_⟩
  · rintro state' hs hhead
    obtain rfl := same state' hs
    exact tallied.calls hhead
  · rintro state' hs hshut
    obtain rfl := same state' hs
    exact tallied.groups hshut
  · intro hs
    exact tallied.tuples (same _ hs).symm
  · intro hs ha
    have hpos := tallied.tuples (same _ hs).symm
    rw [parens_step_of_closing hs ha]
    exact Nat.sub_add_cancel hpos
  · rintro state' hs hlevel
    obtain rfl := same state' hs
    obtain ⟨hparens, houter⟩ := counts_step hs h.poised hlevel
    rw [hparens, houter]
    rcases hlevel with rfl | rfl
    · exact ⟨tallied.groups rfl, tallied.calls rfl⟩
    · exact ⟨tallied.groups rfl, tallied.calls rfl⟩

/-- A lexer that expects nothing more has only its tokens to account for. -/
theorem Counts.of_over (hs : l.state = none)
    (balance : l.parens + l.outer.length + l.outer.sum + closes l.queue = opens l.queue) :
    Counts l := by
  refine ⟨balance, ?_, ?_, ?_, ?_, ?_⟩ <;> simp [hs]

end Lexer

/-- After any number of steps, what a lexer counts as open has been opened by a token that it has
finished and has not been closed by one. No call is open up to the first operand of a statement, and
no parenthesis where a statement begins, before the name of a declaration or behind its type, nor in
what follows. Behind an element of a tuple type a parenthesis is counted, and the one that closes
there is taken off. -/
theorem counts_in_order (source : List Char) (file : String) (n : Nat) :
    Lexer.Counts (Lexer.step^[n] (Lexer.ofRunes source file)) := by
  obtain ⟨ts, late, state, hqueue, hlate, turns⟩ := turns_iterate source file n
  have course := course_iterate source file n
  generalize step^[n] (ofRunes source file) = final at hqueue turns course
  have balance : final.parens + final.outer.length + final.outer.sum + closes final.queue
      = opens final.queue := by
    have hturns := turns.balance
    have hplain : opens late = 0 ∧ closes late = 0 := by
      refine opens_closes_of_plain fun t ht => ?_
      rcases hlate with rfl | ⟨d, rfl⟩
      · cases ht
      · rw [List.mem_singleton.mp ht]
        exact ⟨by simp [report], by simp [report]⟩
    rw [hqueue, opens_append, closes_append, hplain.1, hplain.2]
    simpa [Control.depth] using hturns
  cases course with
  | working work => exact work.counts balance
  | halted => exact Counts.of_over rfl balance
  | failed => exact Counts.of_over rfl balance

end ExprYard
