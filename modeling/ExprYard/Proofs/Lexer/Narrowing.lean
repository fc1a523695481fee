import ExprYard.Parser.Parse
import ExprYard.Proofs.Lexer.Strokes

/-!
# What a narrow lexer does

A narrow lexer does what the lexer does, with offsets as they are kept: of every source the wrapping
build makes the same tokens and meets the same problem, at what is kept of their places, and so does
the checked build of every source that has an offset for each of its runes. This is `does_scan` for
one state, from that `does_next` for a request and `does_drain` for a sink, and `tokenize_eq` and
`parseLexer_eq` for a source.

A state that skips blanks with a token being built finishes that token before it consumes anything
else, so that every rune that is consumed goes on with a token or starts one.
-/

namespace ExprYard

namespace Lexer

namespace Narrow

variable {source : List Char} {l m n : Lexer} {r : Char}

/-! ## A token, and then a state -/

theorem does_finish (kind : Kind) (state : State) (hn : l.taken ≠ []) :
    Does source l (finish kind state) () ((l.emit kind).goto state) :=
  (does_emit kind hn).bind (does_goto state)

theorem does_hold (state : State) (hc : l.Contiguous) :
    Does source l (hold state) () (l.takeOne.goto state) :=
  (does_take hc rfl).bind (does_goto state)

theorem does_takeAnd (kind : Kind) (state : State) (hc : l.Contiguous) (ha : l.ahead = some r) :
    Does source l (takeAnd kind state) () ((l.takeOne.emit kind).goto state) :=
  (does_take hc rfl).bind
    (does_finish kind state ((took_takeOne ha).taken_ne_nil (.inr (by simp))))

theorem does_takeAs (kind : Kind) (count : Lexer → Lexer) (hc : l.Contiguous)
    (ha : l.ahead = some r)
    (hcount : ∀ m : Lexer, Does source m (turn count) () (count m)) :
    Does source l (takeAs kind count) () (count (l.takeOne.emit kind)) :=
  (does_take hc rfl).bind
    ((does_emit kind ((took_takeOne ha).taken_ne_nil (.inr (by simp)))).bind (hcount _))

/-! ## The states -/

theorem does_scanStatementHead :
    Does source l scanStatementHead () l.scanStatementHead := by
  unfold scanStatementHead Lexer.scanStatementHead
  refine does_skipBlanks.bind ?_
  dsimp only
  cases l.skipBlanks.ahead with
  | none => exact does_halt
  | some r => exact does_goto _

theorem does_scanLeadingWord (h : Poised .leadingWord l) :
    Does source l scanLeadingWord () l.scanLeadingWord := by
  obtain ⟨ht, r, hr, hs⟩ := h
  have hn : (l.takeRun Rune.continuesName).taken ≠ [] := by
    refine taken_ne_nil_of_lexeme ?_
    rw [lexeme_takeRun, lexeme_of_nil ht]
    exact (isName_of_head hr hs).ne_nil
  refine (does_takeRun _ (contiguous_of_nil ht)).bind (does_lexer.bind (.ite ?_ ?_))
  · exact fun _ => does_finish _ _ hn
  · exact fun _ => does_goto _

theorem does_scanLetName (h : l.taken = []) : Does source l scanLetName () l.scanLetName := by
  have hc : l.skipBlanks.Contiguous := contiguous_of_nil h
  refine does_skipBlanks.bind (.ite (fun hs => ?_) fun _ => does_fail _)
  have hn := taken_takeRun_of_any h hs
  refine (does_takeRun _ hc).bind ((does_emit _ hn).bind (does_skipBlanks.bind (.ite ?_ ?_)))
  · exact fun ha => does_takeAnd _ _ (contiguous_of_nil rfl) ha
  · exact fun _ => does_goto _

theorem does_scanLetType (h : l.taken = []) : Does source l scanLetType () l.scanLetType := by
  have hc : l.skipBlanks.Contiguous := contiguous_of_nil h
  refine does_skipBlanks.bind (.ite (fun hs => ?_) fun _ => does_fail _)
  have hn := taken_takeRun_of_any h hs
  refine (does_takeRun _ hc).bind (does_lexer.bind ?_)
  rw [lexeme_narrow]
  cases TypeWord.lookup (l.skipBlanks.takeRun Rune.continuesName).lexeme with
  | error problem => exact does_fail problem
  | ok word => exact does_finish _ _ hn

theorem does_scanTupleTypeOpen (h : l.taken = []) :
    Does source l scanTupleTypeOpen () l.scanTupleTypeOpen := by
  have hc : l.skipBlanks.Contiguous := contiguous_of_nil h
  refine does_skipBlanks.bind (.ite (fun ha => ?_) fun _ => does_fail _)
  exact (does_takeAs _ openGroup hc ha fun _ => does_turn rfl rfl rfl rfl).bind (does_goto _)

theorem does_scanTupleTypeNext (h : l.taken = []) :
    Does source l scanTupleTypeNext () l.scanTupleTypeNext := by
  have hc : l.skipBlanks.Contiguous := contiguous_of_nil h
  refine does_skipBlanks.bind (.ite (fun ha => ?_) fun _ => .ite (fun ha => ?_) fun _ => ?_)
  · exact (does_takeAs _ closeGroup hc ha fun _ => does_turn rfl rfl rfl rfl).bind
      (does_lexer.bind (does_goto _))
  · exact does_takeAnd _ _ hc ha
  · exact does_fail _

theorem does_scanLetAssign (h : l.taken = []) :
    Does source l scanLetAssign () l.scanLetAssign := by
  have hc : l.skipBlanks.Contiguous := contiguous_of_nil h
  exact does_skipBlanks.bind (.ite (fun ha => does_takeAnd _ _ hc ha) fun _ => does_fail _)

theorem does_scanQuoted (quote : Char) (body : Char → Bool) (kind : Kind) (h : l.taken = [])
    (ha : l.ahead = some r) :
    Does source l (scanQuoted quote body kind) () (l.scanQuoted quote body kind) := by
  have hc := contiguous_of_nil h
  have opened := (took_takeOne ha).contiguous hc
  have closed := (took_takeRun body l.takeOne).contiguous opened
  refine (does_take hc rfl).bind ((does_takeRun body opened).bind (.ite ?_ ?_))
  · exact fun hq => does_takeAnd _ _ closed hq
  · exact fun _ => does_lexer.bind (does_fail _)

theorem does_scanOperand (h : l.taken = []) : Does source l scanOperand () l.scanOperand := by
  have hc : l.skipBlanks.Contiguous := contiguous_of_nil h
  unfold scanOperand Lexer.scanOperand
  refine does_skipBlanks.bind ?_
  dsimp only
  cases ha : l.skipBlanks.ahead with
  | none => exact does_halt
  | some r =>
    refine .ite (fun _ => ?_) fun _ => .ite (fun _ => ?_) fun _ => .ite (fun _ => ?_) fun _ =>
      .ite (fun _ => ?_) fun _ => .ite (fun _ => ?_) fun _ => .ite (fun _ => ?_) fun _ =>
        .ite (fun _ => ?_) fun _ => ?_
    · exact (does_takeAs _ openGroup hc ha fun _ => does_turn rfl rfl rfl rfl).bind (does_goto _)
    · exact does_hold _ hc
    · exact does_goto _
    · exact does_goto _
    · exact does_scanQuoted _ _ _ h ha
    · exact does_scanQuoted _ _ _ h ha
    · exact does_goto _
    · exact does_fail _

/-- The blanks behind a called name are skipped before it is finished, and its parenthesis is
consumed only afterwards. -/
theorem does_scanName (h : Poised .name l) : Does source l scanName () l.scanName := by
  obtain ⟨hc, hname⟩ := h
  have hn : (l.takeRun Rune.continuesName).skipBlanks.taken ≠ [] :=
    taken_ne_nil_of_lexeme (isName_lexeme_takeRun hname).ne_nil
  refine (does_takeRun _ hc).bind (does_skipBlanks.bind (.ite (fun ha => ?_) fun _ => ?_))
  · have hseen : ((l.takeRun Rune.continuesName).skipBlanks.emit .function).ahead = some '(' := ha
    exact (does_emit _ hn).bind ((does_takeAs _ openCall (contiguous_of_nil rfl) hseen
      fun _ => does_turn rfl rfl rfl rfl).bind (does_goto _))
  · exact does_finish _ _ hn

theorem does_scanNumber (h : Poised .number l) : Does source l scanNumber () l.scanNumber := by
  obtain ⟨ht, r, hr, hd⟩ := h
  obtain ⟨rest, hrest⟩ := List.head?_eq_some_iff.mp hr
  have took := took_takeRun Rune.inNumber l
  have hn : l.cursor.remaining.takeWhile Rune.inNumber ≠ [] := by
    rw [hrest, List.takeWhile_cons_of_pos (Rune.inNumber_of_isDigit hd)]
    exact List.cons_ne_nil _ _
  have hc := contiguous_of_nil ht
  refine (does_takeRun _ hc).bind (.ite (fun _ => ?_) fun _ => ?_)
  · exact does_hold _ (took.contiguous hc)
  · exact does_finish _ _ (took.taken_ne_nil (.inr hn))

theorem does_scanFraction (h : Poised .fraction l) :
    Does source l scanFraction () l.scanFraction := by
  obtain ⟨hc, hn⟩ := h
  have whole := took_takeRun Rune.inNumber l
  refine does_lexer.bind ((does_takeRun _ hc).bind (does_lexer.bind (.ite (fun he => ?_) ?_)))
  · have point := whole.trans (took_takeOne he.1)
    have fraction := point.trans (took_takeRun Rune.inNumber _)
    refine (does_take (whole.contiguous hc) rfl).bind (does_lexer.bind
      ((does_takeRun _ (point.contiguous hc)).bind (does_lexer.bind (.ite (fun _ => ?_) ?_))))
    · exact does_finish _ _ (fraction.taken_ne_nil (.inl hn))
    · exact fun _ => does_lexer.bind (does_fail _)
  · exact fun _ => does_lexer.bind (does_fail _)

theorem does_scanAfterOperand (h : l.taken = []) :
    Does source l scanAfterOperand () l.scanAfterOperand := by
  have hc : l.skipBlanks.Contiguous := contiguous_of_nil h
  unfold scanAfterOperand Lexer.scanAfterOperand
  refine does_skipBlanks.bind ?_
  dsimp only
  cases l.skipBlanks.ahead with
  | none => exact does_halt
  | some r =>
    refine .ite (fun _ => ?_) fun _ => .ite (fun _ => ?_) fun _ => .ite (fun _ => ?_) fun _ => ?_
    · exact does_hold _ hc
    · exact does_hold _ hc
    · exact does_hold _ hc
    · exact does_goto _

theorem does_scanOperator (arity : Arity) (h : l.taken = []) :
    Does source l (scanOperator arity) () (l.scanOperator arity) := by
  have hc : l.peek.Contiguous := contiguous_of_nil h
  refine does_peek.bind (.ite (fun _ => ?_) fun _ => does_fail _)
  refine (does_munch arity hc).bind (does_lexer.bind ?_)
  rw [lexeme_narrow]
  cases hop : Operator.lookup (l.peek.munch arity).lexeme arity with
  | ok op => exact does_finish _ _ (taken_ne_nil_of_lookup hop)
  | error problem => exact does_fail problem

/-- Closing a parenthesis changes the counts only. -/
theorem of_close (h : l.close = some m) : m = { l with parens := m.parens, outer := m.outer } := by
  unfold close at h
  split at h <;> cases h <;> rfl

/-- A rune that one state has consumed is finished by another. -/
theorem does_scanClosing (hn : l.taken ≠ []) : Does source l scanClosing () l.scanClosing := by
  unfold scanClosing Lexer.scanClosing
  refine does_lexer.bind ?_
  rw [close_narrow]
  cases hclose : l.close with
  | none => exact does_fail _
  | some m =>
    have hm := of_close hclose
    have hrecount : Does source l (turn fun _ => narrow m) () m :=
      does_turn rfl (by rw [hm]) (by rw [hm]) (by rw [hm])
    refine hrecount.bind (does_finish _ _ ?_)
    rw [hm]
    exact hn

theorem does_scanComma (hn : l.taken ≠ []) : Does source l scanComma () l.scanComma :=
  does_lexer.bind (.ite (fun _ => does_fail _) fun _ => does_finish _ _ hn)

theorem does_scanSemicolon (hn : l.taken ≠ []) :
    Does source l scanSemicolon () l.scanSemicolon :=
  does_lexer.bind (.ite (fun _ => does_finish _ _ hn) fun _ => does_fail _)

/-! ## Runs -/

/-- A state does within the bounds what it does. -/
theorem does_scan {state : State} (h : Poised state l) :
    Does source l (scan state) () (l.scan state) := by
  cases state with
  | statementHead => exact does_scanStatementHead
  | leadingWord => exact does_scanLeadingWord h
  | letName => exact does_scanLetName h
  | letType => exact does_scanLetType h
  | tupleTypeOpen => exact does_scanTupleTypeOpen h
  | tupleTypeNext => exact does_scanTupleTypeNext h.1
  | letAssign => exact does_scanLetAssign h
  | operand => exact does_scanOperand h
  | name => exact does_scanName h
  | number => exact does_scanNumber h
  | fraction => exact does_scanFraction h
  | afterOperand => exact does_scanAfterOperand h
  | binaryOperator => exact does_scanOperator .binary h.1
  | unaryOperator => exact does_scanOperator .unary h
  | closing => exact does_scanClosing (by simp [h.2])
  | comma => exact does_scanComma (by simp [h.2])
  | semicolon => exact does_scanSemicolon (by simp [h.2])

/-- A lexer that expects something has entered the state for that properly. -/
def Ready (l : Lexer) : Prop :=
  ∀ state, l.state = some state → Poised state l

theorem Ready.step (h : Ready l) : Ready l.step := by
  cases hs : l.state with
  | none =>
    rw [step_of_none hs]
    exact h
  | some state =>
    have did := did_step hs (h state hs)
    generalize l.step = m at did
    intro next hm
    cases did with
    | went covers turn expects queue error poised =>
      rw [expects] at hm
      cases hm
      exact poised
    | halted => cases hm
    | failed => cases hm

theorem Ready.hand {queue : List Token} (h : Ready l) : Ready { l with queue } := by
  intro state hs
  have poised := h state hs
  cases state <;> exact poised

theorem Ready.after (h : Ready l) (n : Nat) : Ready (l.after n) :=
  after_invariant (P := fun _ m => Ready m) (fun _ _ _ ready _ _ => ready.step)
    (fun _ _ _ _ ready _ => ready.hand) h n

theorem does_step (h : Ready l) : Does source l step () l.step := by
  unfold step Lexer.step
  refine does_lexer.bind ?_
  rw [show (narrow l).state = l.state from rfl]
  cases hs : l.state with
  | none => exact does_pure ()
  | some state => exact does_scan (h state hs)

theorem does_steps (source : List Char) (h : Ready l) (n : Nat) :
    Does source l (steps n) () (Lexer.step^[n] l) := by
  induction n with
  | zero => exact does_pure ()
  | succ n ih =>
    rw [Function.iterate_succ_apply']
    exact ih.bind (does_step (iterate_invariant (P := Ready) (fun _ => Ready.step) h n))

theorem does_settleFor (h : Ready l) (turns : Nat) (hturns : l.potential < turns) :
    Does source l (settleFor turns) () l.settle := by
  induction turns generalizing l with
  | zero => exact (Nat.not_lt_zero _ hturns).elim
  | succ turns ih =>
    refine does_lexer.bind ?_
    rw [show (narrow l).queue.isEmpty = l.queue.isEmpty from List.isEmpty_map,
      show (narrow l).state = l.state from rfl]
    by_cases hgoes : (l.queue.isEmpty && l.state.isSome) = true
    · obtain ⟨hq, hs⟩ := Bool.and_eq_true_iff.mp hgoes
      obtain ⟨state, hs⟩ := Option.isSome_iff_exists.mp hs
      have hlt := potential_step_lt hs
      rw [if_pos hgoes, settle_eq_of_expecting (List.isEmpty_iff.mp hq) hs]
      exact (does_step h).bind (ih h.step (by omega))
    · rw [if_neg hgoes, Lexer.settle]
      split
      · rename_i state hq hs
        exact (hgoes (by simp [hq, hs])).elim
      · exact does_pure ()

theorem does_settle (h : Ready l) : Does source l settle () l.settle := by
  refine does_lexer.bind (does_settleFor h _ ?_)
  rw [potential_narrow]
  exact Nat.lt_succ_self _

/-- A request is answered as the lexer answers it. -/
theorem does_next (source : List Char) (h : Ready l) :
    Does source l next (l.next.1.map (Token.relocate .narrow)) l.next.2 := by
  unfold next Lexer.next
  refine (does_settle h).bind (does_lexer.bind ?_)
  rw [show (narrow l.settle).queue = l.settle.queue.map (Token.relocate .narrow) from rfl]
  dsimp only
  cases l.settle.queue with
  | nil => exact does_pure none
  | cons t queue =>
    have hhand : Does source l.settle
        (turn fun l => { l with queue := queue.map (Token.relocate .narrow) }) ()
        { l.settle with queue } := does_turn rfl rfl rfl rfl
    exact hhand.bind (does_pure (some (t.relocate .narrow)))

theorem does_requests (source : List Char) (h : Ready l) (n : Nat) :
    Does source l (requests n)
      ((List.range n).map fun k => (l.answer k).map (Token.relocate .narrow)) (l.after n) := by
  induction n with
  | zero => exact does_pure []
  | succ n ih =>
    rw [List.range_succ, List.map_append, after_succ]
    exact ih.bind ((does_next source (h.after n)).bind (does_pure _))

/-! ## Sinks -/

theorem does_drainFor {σ : Type} {sink : Sink σ} (h : Ready l) (turns : Nat)
    (hturns : l.potential < turns) (s : σ) :
    Does source l (drainFor sink turns s) (l.drain (sink.relocating .narrow) s).1
      (l.drain (sink.relocating .narrow) s).2 := by
  induction turns generalizing l s with
  | zero => exact (Nat.not_lt_zero _ hturns).elim
  | succ turns ih =>
    rw [Lexer.drain]
    unfold drainFor
    rw [show (sink.relocating .narrow).wants s = sink.wants s from rfl]
    by_cases hw : sink.wants s = true
    · rw [if_pos hw, if_pos hw]
      have hnext := does_next source h
      have hready : Ready l.next.2 := h.after 1
      split
      · rename_i m hm
        rw [hm] at hnext
        exact hnext.bind (does_pure s)
      · rename_i t m hm
        have hlt : m.potential < turns := by
          have hstep := potential_of_next hm
          omega
        rw [hm] at hnext hready
        exact hnext.bind (ih hready hlt _)
    · rw [if_neg hw, if_neg hw]
      exact does_pure s

theorem does_drain {σ : Type} (source : List Char) (sink : Sink σ) (h : Ready l) (s : σ) :
    Does source l (drain sink s) (sink.feed s (l.tokens.1.map (Token.relocate .narrow)))
      (l.drain (sink.relocating .narrow) s).2 := by
  rw [← Sink.feed_relocating, ← drain_fst]
  refine does_lexer.bind (does_drainFor h _ ?_ s)
  rw [potential_narrow]
  exact Nat.lt_succ_self _

/-- A sink that always wants more leaves the lexer behind all tokens. -/
theorem drain_snd {σ : Type} {sink : Sink σ} (h : ∀ s, sink.wants s = true) (s : σ) (l : Lexer) :
    (l.drain sink s).2 = l.tokens.2 := by
  fun_induction Lexer.drain sink s l with
  | case1 s l hw m hm => rw [tokens_of_next_none hm]
  | case2 s l hw t m hm ih => rw [ih, tokens_of_next_some hm]
  | case3 s l hw => exact (hw (h s)).elim

theorem feed_keeping (kept ts : List Token) :
    (Sink.keeping none).feed kept ts = ts.reverse ++ kept := by
  induction ts generalizing kept with
  | nil => rfl
  | cons t ts ih =>
    rw [List.reverse_cons, List.append_assoc]
    exact ih (t :: kept)

theorem does_tokens (source : List Char) (h : Ready l) :
    Does source l tokens (l.tokens.1.map (Token.relocate .narrow)) l.tokens.2 := by
  have hdrain := does_drain source (Sink.keeping none) h []
  rw [feed_keeping, List.append_nil, drain_snd fun _ => rfl] at hdrain
  rw [← List.reverse_reverse (l.tokens.1.map _)]
  exact hdrain.bind (does_pure _)

/-! ## Sources -/

theorem ready_ofRunes (source : List Char) (file : String) : Ready (ofRunes source file) :=
  (clean_ofRunes source file).poised

/-- Before the first rune nothing has gone wrong. -/
theorem stands_ofRunes (build : Build) (room : build = .checked → source.length < UInt32.size)
    (file : String) : Stands source build (ofRunes source file) 0 [] where
  firm := .of_nil (l := ofRunes source file) (Cursor.follows_ofRunes source) rfl 0
  past := by
    intro _ m hm
    cases hm
  room := room

/-- What a piece does before a source it does from the first rune on. -/
theorem Does.run_ofRunes {file : String} {α : Type} {piece : Watch α} {a : α}
    (h : Does source (ofRunes source file) piece a m) (build : Build)
    (room : build = .checked → source.length < UInt32.size) :
    ∃ stop past, piece.run (.ofRunes build source file) = some (a, watched build m stop past) ∧
      Stands source build m stop past :=
  h build 0 [] (stands_ofRunes build room file)

theorem Does.run'_ofRunes {file : String} {α : Type} {piece : Watch α} {a : α}
    (h : Does source (ofRunes source file) piece a m) (build : Build)
    (room : build = .checked → source.length < UInt32.size) :
    piece.run' (.ofRunes build source file) = some a := by
  obtain ⟨stop, past, hrun, -⟩ := h.run_ofRunes build room
  show (·.1) <$> piece.run (.ofRunes build source file) = some a
  rw [hrun]
  rfl

/-- A source is taken apart into what it is taken apart into, with what is kept of the places. -/
theorem tokenize_eq (build : Build) (room : build = .checked → source.length < UInt32.size)
    (file : String) :
    tokenize build source file = some (relocateTokens .narrow (ExprYard.tokenize source file)) := by
  have htokens := does_tokens source (ready_ofRunes source file)
  have htake : Does source (ofRunes source file) takeApart
      (relocateTokens .narrow (ExprYard.tokenize source file)) (ofRunes source file).tokens.2 := by
    refine htokens.bind (does_lexer.bind ?_)
    unfold ExprYard.tokenize
    generalize (ofRunes source file).tokens = left
    obtain ⟨ts, l⟩ := left
    rw [show (narrow l).error = l.error.map (Diagnostic.relocate .narrow) from rfl]
    dsimp only
    cases l.error with
    | some d => exact does_pure _
    | none =>
      have hend : ts.map (Token.relocate .narrow) ++ [Token.endOfInput (narrow l).position]
          = (ts ++ [Token.endOfInput l.position]).map (Token.relocate .narrow) := by
        rw [List.map_append]
        rfl
      dsimp only [Option.map_none, relocateTokens]
      rw [hend]
      exact does_pure _
  exact htake.run'_ofRunes build room

/-- What a parser comes to is what the tokens come to, with what is kept of their places. -/
theorem parseLexer_eq (build : Build) (room : build = .checked → source.length < UInt32.size)
    (file : String) :
    parseLexer build source file = some (parseTokens
      ((ofRunes source file).tokens.1.map (Token.relocate .narrow))) := by
  have hdrain := does_drain source Intake.sink (ready_ofRunes source file) Intake.start
  have htake : Does source (ofRunes source file) takeIn (parseTokens
      ((ofRunes source file).tokens.1.map (Token.relocate .narrow))) _ := hdrain.bind (does_pure _)
  exact htake.run'_ofRunes build room

end Narrow

end Lexer

end ExprYard
