import ExprYard.Proofs.Lexer.Turns

/-!
# Every state keeps to the account

For each state of a lexer, what it does is one of the three things that `Did` allows, whatever the
lexer has in front of it, provided that the state was entered as `Poised` says. The states come in
the order of `State`; `did_step` puts them together.
-/

namespace ExprYard

namespace Lexer

variable {l : Lexer}

/-! ## What is in sight -/

/-- After a skip the rune in sight is the next one. -/
theorem head_skipBlanks (l : Lexer) : l.skipBlanks.cursor.remaining.head? = l.skipBlanks.ahead := by
  rw [ahead_skipBlanks, remaining_skipBlanks]

/-- A skip that finds nothing has come to the end. -/
theorem unspent_skipBlanks_of_none (h : l.taken = []) (ha : l.skipBlanks.ahead = none) :
    l.skipBlanks.unspent = [] := by
  rw [unspent_of_nil (l := l.skipBlanks) h]
  rw [← head_skipBlanks] at ha
  exact List.head?_eq_none_iff.mp ha

theorem lexeme_of_nil (h : l.taken = []) : l.lexeme = [] := by
  rw [lexeme, h, List.reverse_nil]

theorem taken_ne_nil_of_lexeme (h : l.lexeme ≠ []) : l.taken ≠ [] := by
  intro hn
  exact h (lexeme_of_nil hn)

/-- A run leaves none of the runes that it is over. -/
theorem takeWhile_dropWhile (p : Char → Bool) (runes : List Char) :
    (runes.dropWhile p).takeWhile p = [] := by
  induction runes with
  | nil => rfl
  | cons r runes ih =>
    by_cases hr : p r = true
    · rw [List.dropWhile_cons_of_pos hr]
      exact ih
    · rw [List.dropWhile_cons_of_neg hr, List.takeWhile_cons_of_neg hr]

/-- Consuming a run of a name completes the name. -/
theorem isName_lexeme_takeRun
    (h : IsName (l.lexeme ++ l.cursor.remaining.takeWhile Rune.continuesName)) :
    IsName (l.takeRun Rune.continuesName).lexeme := by
  rw [lexeme_takeRun]
  exact h

/-- A run of a name in sight is a name. -/
theorem isName_of_head {runes : List Char} {r : Char} (hr : runes.head? = some r)
    (hs : Rune.startsName r = true) : IsName (runes.takeWhile Rune.continuesName) := by
  obtain ⟨rest, rfl⟩ := List.head?_eq_some_iff.mp hr
  refine ⟨r, rest.takeWhile Rune.continuesName, ?_, hs, ?_⟩
  · exact List.takeWhile_cons_of_pos (Rune.continuesName_of_startsName hs)
  · exact List.all_eq_true.mp List.all_takeWhile

theorem IsName.ne_nil {runes : List Char} (h : IsName runes) : runes ≠ [] := by
  obtain ⟨r, rest, rfl, -, -⟩ := h
  exact List.cons_ne_nil r rest

/-- A name in sight is consumed by the run over it. -/
theorem taken_takeRun_of_any (h : l.taken = [])
    (hs : l.skipBlanks.ahead.any Rune.startsName = true) :
    (l.skipBlanks.takeRun Rune.continuesName).taken ≠ [] := by
  obtain ⟨r, hr, hs⟩ := exists_of_ahead_any hs
  rw [← head_skipBlanks] at hr
  have hn := isName_of_head hr hs
  refine taken_ne_nil_of_lexeme ?_
  rw [lexeme_takeRun, lexeme_of_nil (l := l.skipBlanks) h]
  exact hn.ne_nil

/-! ## Steps between tokens -/

/-- What is skipped and then given up on. -/
theorem did_fail_skipBlanks {state : State} (h : l.taken = []) (problem : Problem) :
    Did state l (l.skipBlanks.fail problem) :=
  .failed (quiet_skipBlanks h) problem

/-- A rune behind blanks, to be consumed. -/
theorem took_skipBlanks {r : Char} (ha : l.skipBlanks.ahead = some r) :
    Took l.skipBlanks [r] l.skipBlanks.takeOne :=
  took_takeOne ha

/-- A step that skips blanks, consumes the rune behind them and finishes it as a token. -/
theorem did_takeOne {m : Lexer} {state : State} {r : Char} (kind : Kind) (next : State)
    (h : l.taken = []) (ha : l.skipBlanks.ahead = some r)
    (hm : m = { l.skipBlanks.takeOne.emit kind with
      parens := m.parens, outer := m.outer, state := some next })
    (turn : ∀ t : Token, t.kind = kind →
      Turn ⟨state, l.skipBlanks.takeOne.parens, l.skipBlanks.takeOne.outer⟩ [t]
        ⟨next, m.parens, m.outer⟩)
    (poised : Poised next m) : Did state l m := by
  have took := took_skipBlanks ha
  exact .of_emit kind next ((quiet_skipBlanks h).trans took.quiet)
    (took.contiguous (contiguous_of_nil h)) (took.taken_ne_nil (.inr (by simp))) hm
    (turn _ rfl) poised

/-- A step that skips blanks and consumes the rune behind them, for another state to finish. -/
theorem did_hold {state next : State} {r : Char} (h : l.taken = [])
    (ha : l.skipBlanks.ahead = some r) (hs : next ∈ state.silent)
    (poised : l.skipBlanks.takeOne.Contiguous → l.skipBlanks.takeOne.taken = [r] →
      Poised next l.skipBlanks.takeOne) : Did state l (l.skipBlanks.takeOne.goto next) := by
  have took := took_skipBlanks ha
  refine .of_quiet ((quiet_skipBlanks h).trans took.quiet) hs
    (poised (took.contiguous (contiguous_of_nil h)) ?_)
  have ht := taken_of_take (take_of_ahead ha)
  rw [ht, show l.skipBlanks.taken = l.taken from rfl, h]

/-! ## The states -/

theorem did_scanStatementHead (h : l.taken = []) : Did .statementHead l l.scanStatementHead := by
  unfold scanStatementHead
  dsimp only
  split
  · rename_i ha
    exact .halted (quiet_skipBlanks h) rfl (unspent_skipBlanks_of_none h ha)
  · rename_i r ha
    by_cases hr : Rune.startsName r = true
    · rw [if_pos hr]
      refine .of_quiet (quiet_skipBlanks h) (by simp [State.silent]) ⟨h, r, ?_, hr⟩
      rw [head_skipBlanks, ha]
    · rw [if_neg hr]
      exact .of_quiet (quiet_skipBlanks h) (by simp [State.silent]) h

theorem did_scanLeadingWord (h : Poised .leadingWord l) :
    Did .leadingWord l l.scanLeadingWord := by
  obtain ⟨ht, r, hr, hs⟩ := h
  have took := took_takeRun Rune.continuesName l
  have hname : IsName (l.takeRun Rune.continuesName).lexeme := by
    rw [lexeme_takeRun, lexeme_of_nil ht]
    exact isName_of_head hr hs
  have hc := took.contiguous (contiguous_of_nil ht)
  unfold scanLeadingWord
  dsimp only
  split
  · exact .of_emit (.keyword .letWord) .letName took.quiet hc (taken_ne_nil_of_lexeme hname.ne_nil)
      rfl (.letWord rfl) rfl
  · refine .of_quiet took.quiet (by simp [State.silent]) ⟨hc, ?_⟩
    rw [remaining_takeRun, takeWhile_dropWhile, List.append_nil]
    exact hname

theorem did_scanLetName (h : l.taken = []) : Did .letName l l.scanLetName := by
  unfold scanLetName
  dsimp only
  split
  · rename_i hs
    have took := took_takeRun Rune.continuesName l.skipBlanks
    have quiet := (quiet_skipBlanks h).trans took.quiet
    have hc := took.contiguous (contiguous_of_nil h)
    have hn := taken_takeRun_of_any h hs
    generalize l.skipBlanks.takeRun Rune.continuesName = m at quiet hc hn
    have first : Covers l [m.finished .identifier] (m.emit .identifier).skipBlanks :=
      (quiet.covers.trans (covers_emit .identifier hc hn)).trans (covers_skipBlanks rfl)
    split
    · rename_i ha
      have took := took_takeOne ha
      have hc := took.contiguous (contiguous_of_nil rfl)
      have hn := took.taken_ne_nil (.inr (by simp))
      have same := took.same
      generalize (m.emit .identifier).skipBlanks.takeOne = n at took hc hn same
      have covers : Covers l ([m.finished .identifier] ++ [n.finished (.keyword .typeSeparator)])
          (n.emit (.keyword .typeSeparator)) :=
        (first.trans took.covers).trans (covers_emit _ hc hn)
      refine .went (covers.recast rfl rfl rfl rfl) ?_ rfl ?_ ?_ rfl
      · show Turn _ _ ⟨_, n.parens, n.outer⟩
        rw [same, ← quiet.parens, ← quiet.outer]
        exact .typed rfl rfl
      · show n.queue ++ [n.finished _] = _
        rw [show n.queue = m.queue ++ [m.finished .identifier] by rw [same]; rfl, quiet.queue,
          List.append_assoc]
      · show n.error = _
        rw [show n.error = m.error by rw [same]; rfl, quiet.error]
    · refine .went (first.recast rfl rfl rfl rfl) ?_ rfl ?_ quiet.error rfl
      · show Turn _ _ ⟨_, m.parens, m.outer⟩
        rw [← quiet.parens, ← quiet.outer]
        exact .untyped rfl
      · show m.queue ++ [m.finished .identifier] = _
        rw [quiet.queue]
  · exact did_fail_skipBlanks h _

theorem did_scanLetType (h : l.taken = []) : Did .letType l l.scanLetType := by
  unfold scanLetType
  dsimp only
  split
  · rename_i hs
    have took := took_takeRun Rune.continuesName l.skipBlanks
    have quiet := (quiet_skipBlanks h).trans took.quiet
    have hc := took.contiguous (contiguous_of_nil h)
    have hn := taken_takeRun_of_any h hs
    generalize l.skipBlanks.takeRun Rune.continuesName = m at quiet hc hn
    split
    · exact .failed quiet _
    · rename_i word hw
      by_cases ht : word = .tuple
      · subst ht
        exact .of_emit (.type .tuple) .tupleTypeOpen quiet hc hn rfl (.tupleWord rfl) rfl
      · rw [if_neg ht]
        cases hp : m.parens with
        | zero =>
          refine .of_emit (.type word) .letAssign quiet hc hn ?_ ?_ rfl
          · simp [goto, emit, hp]
          · show Turn ⟨.letType, m.parens, m.outer⟩ _ ⟨.letAssign, m.parens, m.outer⟩
            rw [hp]
            exact .wholeType rfl ht
        | succ p =>
          refine .of_emit (.type word) .tupleTypeNext quiet hc hn ?_ ?_ ⟨rfl, ?_⟩
          · simp [goto, emit, hp]
          · show Turn ⟨.letType, m.parens, m.outer⟩ _ ⟨.tupleTypeNext, m.parens, m.outer⟩
            rw [hp]
            exact .elementType rfl ht
          · show 0 < m.parens
            rw [hp]
            exact Nat.succ_pos p
  · exact did_fail_skipBlanks h _

theorem did_scanTupleTypeOpen (h : l.taken = []) : Did .tupleTypeOpen l l.scanTupleTypeOpen := by
  unfold scanTupleTypeOpen
  dsimp only
  split
  · rename_i ha
    exact did_takeOne .openParen .letType h ha rfl (fun t ht => .openTuple ht) rfl
  · exact did_fail_skipBlanks h _

theorem did_scanTupleTypeNext (h : Poised .tupleTypeNext l) :
    Did .tupleTypeNext l l.scanTupleTypeNext := by
  obtain ⟨h, hp⟩ := h
  unfold scanTupleTypeNext
  dsimp only
  split
  · rename_i ha
    have hq : l.skipBlanks.takeOne.parens = l.parens := by rw [(took_skipBlanks ha).same]; rfl
    have hk : (l.skipBlanks.takeOne.emit .closeParen).closeGroup.parens = l.parens - 1 := by
      rw [← hq]
      rfl
    match hn : l.parens, hp with
    | 1, _ =>
      rw [hk, hn]
      refine did_takeOne .closeParen .letAssign h ha rfl (fun t ht => ?_) rfl
      show Turn _ _ ⟨_, l.skipBlanks.takeOne.parens - 1, _⟩
      rw [hq, hn]
      exact .closeOuterTuple ht
    | p + 2, _ =>
      rw [hk, hn]
      refine did_takeOne .closeParen .tupleTypeNext h ha rfl (fun t ht => ?_) ⟨rfl, ?_⟩
      · show Turn _ _ ⟨_, l.skipBlanks.takeOne.parens - 1, _⟩
        rw [hq, hn]
        exact .closeInnerTuple ht
      · show 0 < l.skipBlanks.takeOne.parens - 1
        rw [hq, hn]
        exact Nat.succ_pos p
  · split
    · rename_i ha
      have hq : l.skipBlanks.takeOne.parens = l.parens := by rw [(took_skipBlanks ha).same]; rfl
      refine did_takeOne (.keyword .comma) .letType h ha rfl (fun t ht => ?_) rfl
      show Turn _ _ ⟨_, l.skipBlanks.takeOne.parens, _⟩
      rw [hq]
      obtain ⟨p, hp⟩ := Nat.exists_eq_succ_of_ne_zero (Nat.pos_iff_ne_zero.mp hp)
      rw [hp]
      exact .typeComma ht
    · exact did_fail_skipBlanks h _

theorem did_scanLetAssign (h : l.taken = []) : Did .letAssign l l.scanLetAssign := by
  unfold scanLetAssign
  dsimp only
  split
  · rename_i ha
    exact did_takeOne (.keyword .assign) .operand h ha rfl (fun t ht => .assign ht) rfl
  · exact did_fail_skipBlanks h _

theorem did_scanQuoted {m : Lexer} {quote : Char} {body : Char → Bool} {kind : Kind}
    (quiet : Quiet l m) (h : m.taken = []) (ha : m.ahead = some quote)
    (hk : kind.isLiteral = true) : Did .operand l (m.scanQuoted quote body kind) := by
  have opened := took_takeOne ha
  have took := opened.trans (took_takeRun body m.takeOne)
  unfold scanQuoted
  dsimp only
  split
  · rename_i hq
    have took := took.trans (took_takeOne hq)
    exact .of_emit kind .afterOperand (quiet.trans took.quiet)
      (took.contiguous (contiguous_of_nil h)) (took.taken_ne_nil (.inr (by simp))) rfl
      (.value rfl (.inl hk)) rfl
  · exact .failed (quiet.trans took.quiet) _

theorem did_scanOperand (h : l.taken = []) : Did .operand l l.scanOperand := by
  unfold scanOperand
  dsimp only
  split
  · rename_i ha
    exact .halted (quiet_skipBlanks h) rfl (unspent_skipBlanks_of_none h ha)
  · rename_i r ha
    have quiet := quiet_skipBlanks h
    have hr := head_skipBlanks l
    rw [ha] at hr
    split
    · rename_i h0
      rw [h0] at ha
      exact did_takeOne .openParen .operand h ha rfl (fun t ht => .openGroup ht) rfl
    split
    · rename_i h1
      rw [h1] at ha
      exact did_hold h ha (by simp [State.silent]) fun hc ht => ⟨hc, ht⟩
    split
    · rename_i h2
      refine .of_quiet quiet (by simp [State.silent]) ⟨contiguous_of_nil h, ?_⟩
      rw [lexeme_of_nil (l := l.skipBlanks) h]
      exact isName_of_head hr h2
    split
    · rename_i h3
      exact .of_quiet quiet (by simp [State.silent]) ⟨h, r, hr, h3⟩
    split
    · rename_i h4
      rw [h4] at ha
      exact did_scanQuoted quiet h ha rfl
    split
    · rename_i h5
      rw [h5] at ha
      exact did_scanQuoted quiet h ha rfl
    split
    · exact .of_quiet quiet (by simp [State.silent]) h
    · exact .failed quiet _

theorem did_scanName (h : Poised .name l) : Did .name l l.scanName := by
  obtain ⟨hc, hname⟩ := h
  have took := took_takeRun Rune.continuesName l
  have hn := taken_ne_nil_of_lexeme (isName_lexeme_takeRun hname).ne_nil
  have hc := took.contiguous hc
  have quiet := took.quiet
  unfold scanName
  dsimp only
  generalize l.takeRun Rune.continuesName = m at hn hc quiet
  split
  · rename_i ha
    have first := quiet.covers.trans (covers_emit_skipBlanks .function hc hn)
    have took := took_takeOne (l := m.skipBlanks.emit .function) ha
    have hc := took.contiguous (contiguous_of_nil rfl)
    have hn := took.taken_ne_nil (.inr (by simp))
    have same := took.same
    generalize (m.skipBlanks.emit .function).takeOne = n at took hc hn same
    have covers : Covers l ([m.finished .function] ++ [n.finished .openParen])
        (n.emit .openParen) :=
      (first.trans took.covers).trans (covers_emit .openParen hc hn)
    refine .went (covers.recast rfl rfl rfl rfl) ?_ rfl ?_ ?_ rfl
    · show Turn _ _ ⟨_, 0, n.parens :: n.outer⟩
      rw [same, ← quiet.parens, ← quiet.outer]
      exact .openCall rfl rfl
    · show n.queue ++ [n.finished .openParen] = _
      rw [show n.queue = m.queue ++ [m.finished .function] by rw [same]; rfl, quiet.queue,
        List.append_assoc]
    · show n.error = _
      rw [show n.error = m.error by rw [same]; rfl, quiet.error]
  · have covers := quiet.covers.trans (covers_emit_skipBlanks .identifier hc hn)
    refine .went (covers.recast rfl rfl rfl rfl) ?_ rfl ?_ quiet.error rfl
    · show Turn _ _ ⟨_, m.parens, m.outer⟩
      rw [← quiet.parens, ← quiet.outer]
      exact .value rfl (.inr rfl)
    · show m.queue ++ [m.finished .identifier] = _
      rw [quiet.queue]
      rfl

theorem did_scanNumber (h : Poised .number l) : Did .number l l.scanNumber := by
  obtain ⟨ht, r, hr, hd⟩ := h
  obtain ⟨rest, hrest⟩ := List.head?_eq_some_iff.mp hr
  have took := took_takeRun Rune.inNumber l
  have hn : l.cursor.remaining.takeWhile Rune.inNumber ≠ [] := by
    rw [hrest, List.takeWhile_cons_of_pos (Rune.inNumber_of_isDigit hd)]
    exact List.cons_ne_nil _ _
  unfold scanNumber
  dsimp only
  split
  · rename_i ha
    have took := took.trans (took_takeOne ha)
    exact .of_quiet took.quiet (by simp [State.silent])
      ⟨took.contiguous (contiguous_of_nil ht), took.taken_ne_nil (.inr (by simp))⟩
  · exact .of_emit _ .afterOperand took.quiet (took.contiguous (contiguous_of_nil ht))
      (took.taken_ne_nil (.inr hn)) rfl (.value rfl (.inl rfl)) rfl

theorem did_scanFraction (h : Poised .fraction l) : Did .fraction l l.scanFraction := by
  obtain ⟨hc, hn⟩ := h
  have took := took_takeRun Rune.inNumber l
  unfold scanFraction
  dsimp only
  split
  · rename_i he
    have took := (took.trans (took_takeOne he.1)).trans (took_takeRun Rune.inNumber _)
    split
    · exact .of_emit _ .afterOperand took.quiet (took.contiguous hc)
        (took.taken_ne_nil (.inl hn)) rfl (.value rfl (.inl rfl)) rfl
    · exact .failed took.quiet _
  · exact .failed took.quiet _

theorem did_scanAfterOperand (h : l.taken = []) : Did .afterOperand l l.scanAfterOperand := by
  unfold scanAfterOperand
  dsimp only
  split
  · rename_i ha
    exact .halted (quiet_skipBlanks h) rfl (unspent_skipBlanks_of_none h ha)
  · rename_i r ha
    split
    · rename_i h0
      rw [h0] at ha
      exact did_hold h ha (by simp [State.silent]) fun hc ht => ⟨hc, ht⟩
    split
    · rename_i h1
      rw [h1] at ha
      exact did_hold h ha (by simp [State.silent]) fun hc ht => ⟨hc, ht⟩
    split
    · rename_i h2
      rw [h2] at ha
      exact did_hold h ha (by simp [State.silent]) fun hc ht => ⟨hc, ht⟩
    · rename_i h1 _
      refine .of_quiet (quiet_skipBlanks h) (by simp [State.silent]) ⟨h, ?_⟩
      rw [head_skipBlanks, ha]
      simpa using h1

/-- What two states have in common: an operator is finished, or the lexer gives up. -/
theorem did_scanOperator {state : State} {arity : Arity} (h : l.taken = [])
    (turn : ∀ (t : Token) (op : Operator), t.kind = .operator op → op.arity = arity →
      op.spelling.head? = l.cursor.remaining.head? →
      Turn ⟨state, l.parens, l.outer⟩ [t] ⟨.operand, l.parens, l.outer⟩) :
    Did state l (l.scanOperator arity) := by
  obtain ⟨w, munched⟩ := took_munch arity l.peek
  have took := (took_peek l).trans munched
  unfold scanOperator
  dsimp only
  split
  · split
    · rename_i op hop
      have hn := taken_ne_nil_of_lookup hop
      obtain ⟨hs, ha⟩ := Operator.lookup_eq_ok_iff.mp hop
      refine .of_emit (.operator op) .operand took.quiet (took.contiguous (contiguous_of_nil h)) hn
        rfl ?_ rfl
      show Turn _ _ ⟨_, (l.peek.munch arity).parens, (l.peek.munch arity).outer⟩
      rw [took.quiet.parens, took.quiet.outer]
      refine turn _ op rfl ha ?_
      have hw : op.spelling = w := by
        rw [hs, took.lexeme, lexeme_of_nil h]
        rfl
      have hne : w ≠ [] := by
        intro hne
        rw [hne] at hw
        cases op <;> cases hw
      rw [hw, took.remaining]
      obtain ⟨r, rest, rfl⟩ := List.exists_cons_of_ne_nil hne
      rfl
    · exact .failed took.quiet _
  · exact .failed (took_peek l).quiet _

theorem did_scanBinaryOperator (h : Poised .binaryOperator l) :
    Did .binaryOperator l (l.scanOperator .binary) := by
  obtain ⟨ht, hr⟩ := h
  refine did_scanOperator ht fun t op hk ha hs => .binary hk ha ?_
  rintro rfl
  exact hr hs.symm

theorem did_scanUnaryOperator (h : l.taken = []) :
    Did .unaryOperator l (l.scanOperator .unary) := by
  refine did_scanOperator h fun t op hk ha _ => .unary ?_
  cases op <;> first | exact hk | cases ha

theorem did_scanClosing (h : Poised .closing l) : Did .closing l l.scanClosing := by
  obtain ⟨hc, ht⟩ := h
  have hn : l.taken ≠ [] := by
    rw [ht]
    exact List.cons_ne_nil _ _
  unfold scanClosing
  split
  · rename_i m hm
    unfold close at hm
    split at hm
    · rename_i p hp
      cases hm
      refine .of_emit .closeParen .afterOperand quiet_refl hc hn rfl ?_ rfl
      rw [hp]
      exact .closeGroup rfl
    · rename_i p os hp ho
      cases hm
      refine .of_emit .closeParen .afterOperand quiet_refl hc hn rfl ?_ rfl
      rw [hp, ho]
      exact .closeCall rfl
    · cases hm
  · exact .failed quiet_refl _

/-- At the level of a statement nothing is open. -/
theorem isLevel_iff : l.isLevel = true ↔ l.parens = 0 ∧ l.outer = [] := by
  simp [isLevel]

theorem did_scanComma (h : Poised .comma l) : Did .comma l l.scanComma := by
  obtain ⟨hc, ht⟩ := h
  unfold scanComma
  split
  · exact .failed quiet_refl _
  · rename_i hl
    refine .of_emit (.keyword .comma) .operand quiet_refl hc (by simp [ht]) rfl (.comma rfl ?_) rfl
    rw [isLevel_iff] at hl
    by_cases hp : l.parens = 0
    · exact .inr fun ho => hl ⟨hp, ho⟩
    · exact .inl hp

theorem did_scanSemicolon (h : Poised .semicolon l) : Did .semicolon l l.scanSemicolon := by
  obtain ⟨hc, ht⟩ := h
  unfold scanSemicolon
  split
  · rename_i hl
    obtain ⟨hp, ho⟩ := isLevel_iff.mp hl
    refine .of_emit (.keyword .semicolon) .statementHead quiet_refl hc (by simp [ht]) rfl ?_ rfl
    show Turn _ _ ⟨_, l.parens, l.outer⟩
    rw [hp, ho]
    exact .semicolon rfl
  · exact .failed quiet_refl _

/-- The account of a step. -/
theorem did_step {state : State} (hs : l.state = some state) (h : Poised state l) :
    Did state l l.step := by
  unfold step
  rw [hs]
  cases state with
  | statementHead => exact did_scanStatementHead h
  | leadingWord => exact did_scanLeadingWord h
  | letName => exact did_scanLetName h
  | letType => exact did_scanLetType h
  | tupleTypeOpen => exact did_scanTupleTypeOpen h
  | tupleTypeNext => exact did_scanTupleTypeNext h
  | letAssign => exact did_scanLetAssign h
  | operand => exact did_scanOperand h
  | name => exact did_scanName h
  | number => exact did_scanNumber h
  | fraction => exact did_scanFraction h
  | afterOperand => exact did_scanAfterOperand h
  | binaryOperator => exact did_scanBinaryOperator h
  | unaryOperator => exact did_scanUnaryOperator h
  | closing => exact did_scanClosing h
  | comma => exact did_scanComma h
  | semicolon => exact did_scanSemicolon h

end Lexer

end ExprYard
