import ExprYard.Lexer.Run

/-!
# States as routines

Every state of a lexer is put together from a few moves: it looks at a rune, skips, consumes,
finishes a token or gives up, counts parentheses, and says what it expects next. Which move comes
next depends on little, and `Sight` is all of it. `Routine` says of a change of lexers that it is put
together in this way, and `routine_step` says so of a step.

What each move keeps, and what is kept by doing one thing after the other, is kept by every state. So
a law of that kind is proved by induction on `Routine`, with one case for each move, and needs no
look at the states.

A move in turn is made of strokes: a rune is handed out, or handed out and taken back at once.
`Reaches` joins strokes, and `Routine.reaches` says that nothing happens to a lexer in any other way.
-/

namespace ExprYard

namespace Lexer

/-! ## Routines -/

/-- What a lexer decides by: the rune in sight, the token being built, the counts of parentheses and
what is expected. -/
structure Sight where
  ahead : Option Char
  /-- The runes of the token being built, the latest first. -/
  taken : List Char
  parens : Nat
  outer : List Nat
  state : Option State

def sight (l : Lexer) : Sight :=
  ⟨l.ahead, l.taken, l.parens, l.outer, l.state⟩

/-- A change of lexers that is put together from moves. -/
inductive Routine : (Lexer → Lexer) → Prop where
  | rest : Routine fun l => l
  | takeOne : Routine takeOne
  | peek : Routine peek
  | skipBlanks : Routine skipBlanks
  | takeRun (p : Char → Bool) : Routine (takeRun p)
  | munch (arity : Arity) : Routine (munch arity)
  | emit (kind : Kind) : Routine (emit kind)
  | fail (problem : Problem) : Routine (fail problem)
  | expect (state : Option State) : Routine fun l => { l with state }
  /-- Parentheses are counted anew, by the counts that there were. -/
  | recount (parens : Nat → List Nat → Nat) (outer : Nat → List Nat → List Nat) :
      Routine fun l => { l with parens := parens l.parens l.outer, outer := outer l.parens l.outer }
  /-- One after the other. -/
  | after {f g : Lexer → Lexer} (hg : Routine g) (hf : Routine f) : Routine fun l => g (f l)
  /-- One first, and then the one that is chosen by what is in sight. -/
  | choose {first move : Lexer → Lexer} {g : Sight → Lexer → Lexer} (hf : Routine first)
      (hg : ∀ v, Routine (g v)) (same : ∀ l, move l = g (first l).sight (first l)) : Routine move

namespace Routine

variable {f g first move : Lexer → Lexer}

/-- The choice may be made by anything that is told by what is in sight. -/
theorem by_view {α : Type} (hf : Routine first) (view : Lexer → α)
    (hv : ∃ told : Sight → α, ∀ l, view l = told l.sight)
    (h : ∀ a, ∃ g, Routine g ∧ ∀ l m, m = first l → view m = a → move l = g m) :
    Routine move := by
  obtain ⟨told, htold⟩ := hv
  obtain ⟨g, hg⟩ := Classical.skolem.mp h
  exact hf.choose (fun v => (hg (told v)).1) fun l => (hg _).2 l (first l) rfl (htold _)

theorem by_ahead (hf : Routine first)
    (h : ∀ o, ∃ g, Routine g ∧ ∀ l m, m = first l → m.ahead = o → move l = g m) : Routine move :=
  hf.by_view ahead ⟨Sight.ahead, fun _ => rfl⟩ h

theorem by_taken (hf : Routine first)
    (h : ∀ w, ∃ g, Routine g ∧ ∀ l m, m = first l → m.taken = w → move l = g m) : Routine move :=
  hf.by_view taken ⟨Sight.taken, fun _ => rfl⟩ h

theorem by_lexeme (hf : Routine first)
    (h : ∀ w, ∃ g, Routine g ∧ ∀ l m, m = first l → m.lexeme = w → move l = g m) : Routine move :=
  hf.by_view lexeme ⟨fun v => v.taken.reverse, fun _ => rfl⟩ h

/-- One of two. -/
theorem ite {c : Prop} [Decidable c] (hf : Routine f) (hg : Routine g) :
    Routine fun l => if c then f l else g l := by
  by_cases h : c <;> simpa [h]

end Routine

theorem routine_goto (state : State) : Routine (goto state) :=
  .expect (some state)

theorem routine_halt : Routine halt :=
  .expect none

theorem routine_openGroup : Routine openGroup :=
  .recount (fun parens _ => parens + 1) fun _ outer => outer

theorem routine_closeGroup : Routine closeGroup :=
  .recount (fun parens _ => parens - 1) fun _ outer => outer

theorem routine_openCall : Routine openCall :=
  .recount (fun _ _ => 0) fun parens outer => parens :: outer

/-- A token is finished and something else is expected. -/
theorem routine_finish (kind : Kind) (next : State) : Routine fun l => (l.emit kind).goto next :=
  (routine_goto next).after (.emit kind)

/-- A rune is consumed and the token is finished. -/
theorem routine_take (kind : Kind) (next : State) :
    Routine fun l => (l.takeOne.emit kind).goto next :=
  (routine_finish kind next).after .takeOne

/-- A rune is consumed for another state to finish. -/
theorem routine_hold (next : State) : Routine fun l => l.takeOne.goto next :=
  (routine_goto next).after .takeOne

/-- A group opens. -/
theorem routine_open (next : State) :
    Routine fun l => (l.takeOne.emit .openParen).openGroup.goto next :=
  (routine_goto next).after (routine_openGroup.after ((Routine.emit .openParen).after .takeOne))

/-! ## States -/

theorem routine_scanStatementHead : Routine scanStatementHead := by
  refine Routine.skipBlanks.by_ahead fun o => ⟨?_, ?steps, fun l m hm ha => ?same⟩
  case same =>
    unfold scanStatementHead
    dsimp only
    rw [← hm, ha]
  case steps =>
    cases o with
    | none => exact routine_halt
    | some r => exact routine_goto _

theorem routine_scanLeadingWord : Routine scanLeadingWord := by
  refine (Routine.takeRun Rune.continuesName).by_lexeme
    fun w => ⟨?_, ?steps, fun l m hm hw => ?same⟩
  case same =>
    unfold scanLeadingWord
    dsimp only
    rw [← hm, hw]
  case steps =>
    exact .ite (routine_finish _ _) (routine_goto _)

theorem routine_scanLetName : Routine scanLetName := by
  refine Routine.skipBlanks.by_ahead fun o => ⟨?_, ?steps, fun l m hm ha => ?same⟩
  case same =>
    unfold scanLetName
    dsimp only
    rw [← hm, ha]
  case steps =>
    refine .ite ?_ (.fail _)
    refine Routine.by_ahead (Routine.skipBlanks.after
      ((Routine.emit .identifier).after (Routine.takeRun Rune.continuesName)))
      fun o => ⟨?_, ?steps, fun l m hm ha => ?same⟩
    case same =>
      rw [← hm, ha]
    case steps =>
      exact .ite (routine_take _ _) (routine_goto _)

theorem routine_scanLetType : Routine scanLetType := by
  refine Routine.skipBlanks.by_ahead fun o => ⟨?_, ?steps, fun l m hm ha => ?same⟩
  case same =>
    unfold scanLetType
    dsimp only
    rw [← hm, ha]
  case steps =>
    refine .ite ?_ (.fail _)
    refine (Routine.takeRun Rune.continuesName).by_view (fun l => (l.lexeme, l.parens))
      ⟨fun v => (v.taken.reverse, v.parens), fun _ => rfl⟩
      fun v => ⟨?_, ?steps, fun l m hm hv => ?same⟩
    case same =>
      obtain ⟨hw, hp⟩ := Prod.mk.inj hv
      rw [← hm, hw, hp]
    case steps =>
      cases TypeWord.lookup v.1 with
      | error problem => exact Routine.fail problem
      | ok word => exact routine_finish _ _

theorem routine_scanTupleTypeOpen : Routine scanTupleTypeOpen := by
  refine Routine.skipBlanks.by_ahead fun o => ⟨?_, ?steps, fun l m hm ha => ?same⟩
  case same =>
    unfold scanTupleTypeOpen
    dsimp only
    rw [← hm, ha]
  case steps =>
    exact .ite (routine_open _) (.fail _)

theorem routine_scanTupleTypeNext : Routine scanTupleTypeNext := by
  refine Routine.skipBlanks.by_ahead fun o => ⟨?_, ?steps, fun l m hm ha => ?same⟩
  case same =>
    unfold scanTupleTypeNext
    dsimp only
    rw [← hm, ha]
  case steps =>
    refine .ite ?_ (.ite (routine_take _ _) (.fail _))
    refine Routine.by_view (routine_closeGroup.after ((Routine.emit .closeParen).after
      .takeOne)) parens ⟨Sight.parens, fun _ => rfl⟩
      fun n => ⟨?_, ?steps, fun l m hm hn => ?same⟩
    case same =>
      rw [← hm, hn]
    case steps => exact routine_goto _

theorem routine_scanLetAssign : Routine scanLetAssign := by
  refine Routine.skipBlanks.by_ahead fun o => ⟨?_, ?steps, fun l m hm ha => ?same⟩
  case same =>
    unfold scanLetAssign
    dsimp only
    rw [← hm, ha]
  case steps =>
    exact .ite (routine_take _ _) (.fail _)

theorem routine_scanQuoted (quote : Char) (body : Char → Bool) (kind : Kind) :
    Routine (scanQuoted quote body kind) := by
  refine Routine.by_view ((Routine.takeRun body).after Routine.takeOne)
    (fun l => (l.ahead, l.lexeme)) ⟨fun v => (v.ahead, v.taken.reverse), fun _ => rfl⟩
    fun v => ⟨?_, ?steps, fun l m hm hv => ?same⟩
  case same =>
    obtain ⟨ha, hw⟩ := Prod.mk.inj hv
    unfold scanQuoted
    dsimp only
    rw [← hm, ha, hw]
  case steps =>
    exact .ite (routine_take _ _) (.fail _)

theorem routine_scanOperand : Routine scanOperand := by
  refine Routine.skipBlanks.by_ahead fun o => ⟨?_, ?steps, fun l m hm ha => ?same⟩
  case same =>
    unfold scanOperand
    dsimp only
    rw [← hm, ha]
  case steps =>
    cases o with
    | none => exact routine_halt
    | some r =>
      exact .ite (routine_open _) (.ite (routine_hold _) (.ite (routine_goto _)
        (.ite (routine_goto _) (.ite (routine_scanQuoted _ _ _) (.ite (routine_scanQuoted _ _ _)
          (.ite (routine_goto _) (.fail _)))))))

theorem routine_scanName : Routine scanName := by
  refine Routine.by_ahead
    (Routine.skipBlanks.after (Routine.takeRun Rune.continuesName))
    fun o => ⟨?_, ?steps, fun l m hm ha => ?same⟩
  case same =>
    unfold scanName
    dsimp only
    rw [← hm, ha]
  case steps =>
    refine .ite ?_ (routine_finish _ _)
    exact (routine_goto _).after (routine_openCall.after ((Routine.emit _).after
      (Routine.takeOne.after (.emit _))))

theorem routine_scanNumber : Routine scanNumber := by
  refine (Routine.takeRun Rune.inNumber).by_ahead fun o => ⟨?_, ?steps, fun l m hm ha => ?same⟩
  case same =>
    unfold scanNumber
    dsimp only
    rw [← hm, ha]
  case steps =>
    exact .ite (routine_hold _) (routine_finish _ _)

theorem routine_scanFraction : Routine scanFraction := by
  -- What has been consumed before a run is kept, to be compared with what is consumed after it.
  refine Routine.rest.by_taken fun whole => ⟨?_, ?steps, fun l m hm hw => ?same⟩
  case same =>
    unfold scanFraction lexeme
    dsimp only
    rw [← hm, hw]
  case steps =>
    refine (Routine.takeRun Rune.inNumber).by_view (fun m => (m.ahead, m.taken))
      ⟨fun v => (v.ahead, v.taken), fun _ => rfl⟩ fun v => ⟨?_, ?steps, fun l m hm hv => ?same⟩
    case same =>
      obtain ⟨ha, ht⟩ := Prod.mk.inj hv
      rw [← hm, ha, ht]
    case steps =>
      refine .ite ?_ (.fail _)
      refine Routine.takeOne.by_taken fun fraction => ⟨?_, ?steps, fun l m hm hf => ?same⟩
      case same =>
        rw [← hm, hf]
      case steps =>
        refine (Routine.takeRun Rune.inNumber).by_taken
          fun w => ⟨?_, ?steps, fun l m hm hw => ?same⟩
        case same =>
          rw [← hm, hw]
        case steps =>
          exact .ite (routine_finish _ _) (.fail _)

theorem routine_scanAfterOperand : Routine scanAfterOperand := by
  refine Routine.skipBlanks.by_ahead fun o => ⟨?_, ?steps, fun l m hm ha => ?same⟩
  case same =>
    unfold scanAfterOperand
    dsimp only
    rw [← hm, ha]
  case steps =>
    cases o with
    | none => exact routine_halt
    | some r =>
      exact .ite (routine_hold _) (.ite (routine_hold _)
          (.ite (routine_hold _) (routine_goto _)))

theorem routine_scanOperator (arity : Arity) : Routine (scanOperator arity) := by
  refine Routine.peek.by_ahead fun o => ⟨?_, ?steps, fun l m hm ha => ?same⟩
  case same =>
    unfold scanOperator
    dsimp only
    rw [← hm, ha]
  case steps =>
    refine .ite ?_ (.fail _)
    refine (Routine.munch arity).by_lexeme fun w => ⟨?_, ?steps, fun l m hm hw => ?same⟩
    case same =>
      rw [← hm, hw]
    case steps =>
      cases Operator.lookup w arity with
      | ok op => exact routine_finish _ _
      | error problem => exact Routine.fail problem

theorem routine_scanClosing : Routine scanClosing := by
  have finish := routine_finish .closeParen .afterOperand
  refine Routine.rest.by_view (fun l => (l.parens, l.outer))
    ⟨fun v => (v.parens, v.outer), fun _ => rfl⟩ fun v => ?_
  obtain ⟨n, outer⟩ := v
  cases n with
  | succ n =>
    refine ⟨_, finish.after (.recount (fun _ _ => n) fun _ _ => outer), fun l m hm hv => ?_⟩
    obtain ⟨hn, rfl⟩ := Prod.mk.inj hv
    subst hm
    unfold scanClosing close
    rw [hn]
  | zero =>
    cases outer with
    | nil =>
      refine ⟨_, Routine.fail .extraneousParenthesis, fun l m hm hv => ?_⟩
      obtain ⟨hn, ho⟩ := Prod.mk.inj hv
      subst hm
      unfold scanClosing close
      rw [hn, ho]
    | cons n outer =>
      refine ⟨_, finish.after (.recount (fun _ _ => n) fun _ _ => outer), fun l m hm hv => ?_⟩
      obtain ⟨hn, ho⟩ := Prod.mk.inj hv
      subst hm
      unfold scanClosing close
      rw [hn, ho]

theorem routine_scanComma : Routine scanComma := by
  refine Routine.rest.by_view isLevel ⟨fun v => v.parens = 0 && v.outer.isEmpty, fun _ => rfl⟩
    fun level => ⟨?_, ?steps, fun l m hm hl => ?same⟩
  case same =>
    unfold scanComma
    rw [← hm, hl]
  case steps =>
    exact .ite (.fail _) (routine_finish _ _)

theorem routine_scanSemicolon : Routine scanSemicolon := by
  refine Routine.rest.by_view isLevel ⟨fun v => v.parens = 0 && v.outer.isEmpty, fun _ => rfl⟩
    fun level => ⟨?_, ?steps, fun l m hm hl => ?same⟩
  case same =>
    unfold scanSemicolon
    rw [← hm, hl]
  case steps =>
    exact .ite (routine_finish _ _) (.fail _)

/-- What a lexer does in a state is put together from moves. -/
theorem routine_scan (state : State) : Routine (scan state) := by
  cases state with
  | statementHead => exact routine_scanStatementHead
  | leadingWord => exact routine_scanLeadingWord
  | letName => exact routine_scanLetName
  | letType => exact routine_scanLetType
  | tupleTypeOpen => exact routine_scanTupleTypeOpen
  | tupleTypeNext => exact routine_scanTupleTypeNext
  | letAssign => exact routine_scanLetAssign
  | operand => exact routine_scanOperand
  | name => exact routine_scanName
  | number => exact routine_scanNumber
  | fraction => exact routine_scanFraction
  | afterOperand => exact routine_scanAfterOperand
  | binaryOperator => exact routine_scanOperator .binary
  | unaryOperator => exact routine_scanOperator .unary
  | closing => exact routine_scanClosing
  | comma => exact routine_scanComma
  | semicolon => exact routine_scanSemicolon

theorem routine_step : Routine step := by
  refine Routine.rest.by_view state ⟨Sight.state, fun _ => rfl⟩
    fun expected => ⟨?_, ?steps, fun l m hm hs => ?same⟩
  case same =>
    unfold step
    rw [← hm, hs]
  case steps =>
    cases expected with
    | none => exact Routine.rest
    | some state => exact routine_scan state

/-! ## Strokes -/

/-- What a lexer can come to by one stroke after the other. -/
inductive Reaches (l : Lexer) : Lexer → Prop where
  | start : Reaches l l
  /-- The next rune is handed out, to be skipped. -/
  | read {m : Lexer} (before : Reaches l m) : Reaches l { m with cursor := m.cursor.read.2 }
  /-- The next rune is handed out and taken back. -/
  | look {m : Lexer} {c : Cursor} {r : Char} (before : Reaches l m)
      (h : m.cursor.read = (some r, c)) : Reaches l { m with cursor := c.unread r }
  /-- The next rune is consumed. -/
  | take {m : Lexer} (before : Reaches l m) : Reaches l m.take.2
  /-- The next rune is consumed and given back. -/
  | giveBack {m n : Lexer} {r : Char} (before : Reaches l m) (h : m.take = (some r, n)) :
      Reaches l n.giveBack
  | emit {m : Lexer} (kind : Kind) (before : Reaches l m) : Reaches l (m.emit kind)
  | fail {m : Lexer} (problem : Problem) (before : Reaches l m) : Reaches l (m.fail problem)
  | expect {m : Lexer} (state : Option State) (before : Reaches l m) : Reaches l { m with state }
  | recount {m : Lexer} (parens : Nat) (outer : List Nat) (before : Reaches l m) :
      Reaches l { m with parens, outer }

namespace Reaches

variable {l m n : Lexer}

theorem trans (h : Reaches l m) (g : Reaches m n) : Reaches l n := by
  induction g with
  | start => exact h
  | read before ih => exact ih.read
  | look before hc ih => exact ih.look hc
  | take before ih => exact ih.take
  | giveBack before ht ih => exact ih.giveBack ht
  | emit kind before ih => exact ih.emit kind
  | fail problem before ih => exact ih.fail problem
  | expect state before ih => exact ih.expect state
  | recount parens outer before ih => exact ih.recount parens outer

theorem of_read {o : Option Char} {c d : Cursor} (h : c.read = (o, d)) :
    Reaches { l with cursor := c } { l with cursor := d } := by
  have hread := (Reaches.start (l := { l with cursor := c })).read
  rw [show ({ l with cursor := c } : Lexer).cursor.read = (o, d) from h] at hread
  exact hread

theorem of_take {o : Option Char} (h : l.take = (o, m)) : Reaches l m := by
  have htake := Reaches.start.take (l := l)
  rw [h] at htake
  exact htake

theorem peek (l : Lexer) : Reaches l l.peek := by
  unfold Lexer.peek Cursor.peek
  split
  · rename_i c hc
    exact of_read hc
  · rename_i r c hc
    exact Reaches.start.look hc

theorem skipBlanks (l : Lexer) : Reaches l l.skipBlanks := by
  suffices h : ∀ c : Cursor, Reaches { l with cursor := c }
      { l with cursor := c.skipWhile Rune.isBlank } from h l.cursor
  intro c
  fun_induction Cursor.skipWhile Rune.isBlank c with
  | case1 c d hc => exact of_read hc
  | case2 c r d hc hp ih => exact (of_read hc).trans ih
  | case3 c r d hc hp => exact Reaches.start.look hc

theorem takeRun (p : Char → Bool) (l : Lexer) : Reaches l (l.takeRun p) := by
  fun_induction Lexer.takeRun p l with
  | case1 l m h => exact of_take h
  | case2 l r m h hp ih => exact (of_take h).trans ih
  | case3 l r m h hp => exact Reaches.start.giveBack h

theorem munch (arity : Arity) (l : Lexer) : Reaches l (l.munch arity) := by
  fun_induction Lexer.munch arity l with
  | case1 l m h => exact of_take h
  | case2 l r m h hp ih => exact (of_take h).trans ih
  | case3 l r m h hp => exact Reaches.start.giveBack h

end Reaches

/-- A routine is made of strokes. -/
theorem Routine.reaches {move : Lexer → Lexer} (h : Routine move) :
    ∀ l : Lexer, Reaches l (move l) := by
  induction h with
  | rest => exact fun l => .start
  | takeOne => exact fun l => Reaches.start.take
  | peek => exact Reaches.peek
  | skipBlanks => exact Reaches.skipBlanks
  | takeRun p => exact Reaches.takeRun p
  | munch arity => exact Reaches.munch arity
  | emit kind => exact fun l => Reaches.start.emit kind
  | fail problem => exact fun l => Reaches.start.fail problem
  | expect state => exact fun l => Reaches.start.expect state
  | recount parens outer => exact fun l => Reaches.start.recount _ _
  | @after f g _ _ hg hf => exact fun l => (hf l).trans (hg (f l))
  | @choose first move g _ _ same hf hg =>
    intro l
    rw [same l]
    exact (hf l).trans (hg _ (first l))

/-- So is a step. -/
theorem reaches_step (l : Lexer) : Reaches l l.step :=
  routine_step.reaches l

end Lexer

end ExprYard
