import ExprYard.Proofs.Lexer.Phrases
import ExprYard.Proofs.Lexer.Requests

/-!
# A lexer reads phrase after phrase

Between tokens a lexer `Rests` at a spot in a stance, and some number of steps take it through the
phrase that comes next (`follows_phrase`): it finishes the tokens of the phrase and rests behind
them, or it gives up with the problem of the phrase, or it comes to the end. While it works on a
token it `Holds` a word of the source, and each move of a lexer says what that does to the word.

With that all tokens of a source are its `reading` (`tokens_eq_reading`).
-/

namespace ExprYard

namespace Lexer

/-! ## Holding a word -/

/-- Since `l`, the tokens `ts` have been finished, and the word `w` that stands at the spot `a` is
held of the next one. The open parentheses are those of `s`. -/
structure Holds (l : Lexer) (ts : List Token) (s : Stance) (a : Spot) (w : List Char)
    (m : Lexer) : Prop where
  rest : a.rest = w ++ m.cursor.remaining
  lexeme : m.lexeme = w
  pos : m.cursor.pos = a.offset + w.length
  offset : m.offset = a.offset
  file : m.file = a.file
  parens : m.parens = s.parens
  outer : m.outer = s.outer
  queue : m.queue = l.queue ++ ts
  error : m.error = l.error

namespace Holds

variable {l m n : Lexer} {ts : List Token} {s : Stance} {a : Spot} {v w : List Char}

/-- What is held does not depend on where the count of tokens began. -/
theorem self (h : Holds l ts s a w m) : Holds m [] s a w m :=
  { h with queue := (List.append_nil _).symm, error := rfl }

theorem took (h : Holds l ts s a v m) (t : Took m w n) : Holds l ts s a (v ++ w) n where
  rest := by rw [h.rest, t.remaining, List.append_assoc]
  lexeme := by rw [t.lexeme, h.lexeme]
  pos := by rw [t.pos, h.pos, List.length_append, Nat.add_assoc]
  offset := t.offset.trans h.offset
  file := by rw [t.same]; exact h.file
  parens := by rw [t.same]; exact h.parens
  outer := by rw [t.same]; exact h.outer
  queue := by rw [t.same]; exact h.queue
  error := by rw [t.same]; exact h.error

/-- What is expected is not part of what is held. -/
theorem goto (h : Holds l ts s a w m) (state : State) : Holds l ts s a w (m.goto state) :=
  { h with }

theorem mode (h : Holds l ts s a w m) (mode : Mode) : Holds l ts (s.goto mode) a w m :=
  { h with }

theorem remaining (h : Holds l ts s a w m) : m.cursor.remaining = (a.past w).rest := by
  rw [Spot.past, h.rest, List.drop_left]

theorem taken (h : Holds l ts s a w m) (hw : w ≠ []) : m.taken ≠ [] := by
  intro hn
  rw [← h.lexeme, Lexer.lexeme, hn] at hw
  exact hw rfl

theorem length_taken (h : Holds l ts s a w m) : m.taken.length = w.length := by
  rw [← h.lexeme, Lexer.lexeme, List.length_reverse]

theorem taken_of_nil (h : Holds l ts s a [] m) : m.taken = [] :=
  List.reverse_eq_nil_iff.mp h.lexeme

theorem skipBlanks (h : Holds l ts s a [] m) : Holds l ts s a.skip [] m.skipBlanks where
  rest := by
    rw [remaining_skipBlanks, h.remaining]
    rfl
  lexeme := h.lexeme
  pos := by
    show (m.cursor.skipWhile Rune.isBlank).pos = _
    rw [pos_skipWhile, h.pos, h.remaining]
    rfl
  offset := by
    rw [offset_of_nil (l := m.skipBlanks) h.taken_of_nil]
    show (m.cursor.skipWhile Rune.isBlank).pos = _
    rw [pos_skipWhile, h.pos, h.remaining]
    rfl
  file := h.file
  parens := h.parens
  outer := h.outer
  queue := h.queue
  error := h.error

/-- The word that is held is finished as a token. -/
theorem emit (h : Holds l ts s a w m) (hw : w ≠ []) (kind : Kind) :
    Holds l (ts ++ [a.token kind w]) s (a.past w) [] (m.emit kind) where
  rest := h.remaining.symm
  lexeme := rfl
  pos := h.pos
  offset := h.pos
  file := h.file
  parens := h.parens
  outer := h.outer
  queue := by
    have ho : m.start = a.offset := by rw [← offset_of_ne_nil (h.taken hw), h.offset]
    show m.queue ++ [_] = _
    rw [h.queue, List.append_assoc, h.lexeme, h.length_taken, ho, h.file]
    rfl
  error := h.error

/-- Whatever is held when a lexer gives up, the problem stands at the spot. -/
theorem gaveUp (h : Holds l [] s a w m) (problem : Problem) :
    GaveUp (a.report problem) (l.queue ++ [report (a.report problem)]) (m.fail problem) := by
  have hd : (⟨problem, m.offset, m.file⟩ : Diagnostic) = a.report problem := by
    rw [h.offset, h.file]
    rfl
  refine ⟨?_, ?_, rfl⟩
  · rw [error_fail, hd]
  · rw [queue_fail, hd, h.queue, List.append_nil]

theorem ahead_skipBlanks (h : Holds l ts s a [] m) : m.skipBlanks.ahead = a.skip.ahead := by
  rw [Lexer.ahead_skipBlanks, h.remaining]
  rfl

theorem takeOne {r : Char} (h : Holds l ts s a v m) (hr : m.ahead = some r) :
    Holds l ts s a (v ++ [r]) m.takeOne :=
  h.took (took_takeOne hr)

theorem takeRun (h : Holds l ts s a v m) (p : Char → Bool) :
    Holds l ts s a (v ++ (a.past v).run p) (m.takeRun p) := by
  have t := took_takeRun p m
  rw [h.remaining] at t
  exact h.took t

theorem word (h : Holds l ts s a [] m) : Holds l ts s a a.word (m.takeRun Rune.continuesName) :=
  h.takeRun Rune.continuesName

/-- After a run, the rune behind the word is in sight. -/
theorem ahead_takeRun (h : Holds l ts s a v m) (p : Char → Bool) :
    (m.takeRun p).ahead = (a.past (v ++ (a.past v).run p)).ahead := by
  rw [Lexer.ahead_takeRun, ← remaining_takeRun, (h.takeRun p).remaining]
  rfl

/-- A run makes the word longer unless there is nothing to consume. -/
theorem taken_lt_takeRun (h : Holds l ts s a v m) (p : Char → Bool) :
    m.taken.length < (m.takeRun p).taken.length ↔ (a.past v).run p ≠ [] := by
  rw [h.length_taken, (h.takeRun p).length_taken, List.length_append, ← List.length_pos_iff]
  omega

end Holds

/-- A lexer that builds no token holds nothing of what it is yet to be handed. -/
theorem holds_remaining {l : Lexer} (h : l.taken = []) (mode : Mode) :
    Holds l [] ⟨mode, l.parens, l.outer⟩ ⟨l.cursor.pos, l.cursor.remaining, l.file⟩ [] l where
  rest := rfl
  lexeme := lexeme_of_nil h
  pos := rfl
  offset := offset_of_nil h
  file := rfl
  parens := rfl
  outer := rfl
  queue := (List.append_nil _).symm
  error := rfl

/-! ## Following a phrase -/

/-- A lexer rests at a spot in a stance. -/
structure Rests (s : Stance) (a : Spot) (l : Lexer) : Prop where
  holds : Holds l [] s a [] l
  state : l.state = some s.mode.state

/-- Some number of steps take a lexer through a phrase. -/
inductive Follows (l : Lexer) : Phrase → Prop where
  | ended {n : Nat} (state : (step^[n] l).state = none) (queue : (step^[n] l).queue = l.queue)
      (error : (step^[n] l).error = l.error) : Follows l .ended
  | failed {n : Nat} {d : Diagnostic} (state : (step^[n] l).state = none)
      (queue : (step^[n] l).queue = l.queue ++ [report d])
      (error : (step^[n] l).error = some d) : Follows l (.failed d)
  | read {n : Nat} {ts : List Token} {s : Stance} {b : Spot}
      (rests : Rests s b (step^[n] l)) (queue : (step^[n] l).queue = l.queue ++ ts)
      (error : (step^[n] l).error = l.error) : Follows l (.read ts s b)

variable {l m : Lexer} {ts : List Token} {s next : Stance} {a b : Spot} {v w : List Char}
  {p : Phrase}

/-- A step that finishes nothing. -/
theorem Follows.of_step (f : Follows l.step p) (queue : l.step.queue = l.queue)
    (error : l.step.error = l.error) : Follows l p := by
  cases f with
  | @ended n hs hq he => exact .ended (n := n + 1) hs (hq.trans queue) (he.trans error)
  | @failed n d hs hq he => exact .failed (n := n + 1) hs (by rw [← queue]; exact hq) he
  | @read n ts s b hr hq he =>
    exact .read (n := n + 1) hr (by rw [← queue]; exact hq) (he.trans error)

theorem step_eq {state : State} (h : l.state = some state) : l.step = l.scan state := by
  unfold step
  rw [h]

/-- A step that holds on to a word and leaves the rest to another state. -/
theorem Follows.of_silent {state : State} (hs : l.state = some state)
    (h : Holds l [] s a w (l.scan state)) (f : Follows (l.scan state) p) : Follows l p := by
  rw [← step_eq hs] at h f
  exact f.of_step (h.queue.trans (List.append_nil _)) h.error

/-- A step that only leaves the rest, and the word that it holds on to, to another state. -/
theorem follows_goto {state after : State} (hs : l.state = some state) (h : Holds l [] s a w m)
    (hm : l.scan state = m.goto after)
    (hafter : ∀ n, Holds n [] s a w n → n.state = some after → Follows n p) : Follows l p := by
  have hscan := h.goto after
  rw [← hm] at hscan
  exact .of_silent hs hscan (hafter _ hscan.self (by rw [hm]; rfl))

/-- A step to the end of the text. -/
theorem follows_halt {state : State} (hs : l.state = some state) (h : Holds l [] s a w m)
    (hm : l.scan state = m.halt) : Follows l .ended := by
  have hstep : l.step = m.halt := (step_eq hs).trans hm
  refine .ended (n := 1) ?_ ?_ ?_ <;> rw [Function.iterate_one, hstep]
  · rfl
  · exact h.queue.trans (List.append_nil _)
  · exact h.error

/-- A step that gives up. -/
theorem follows_fail {state : State} (hs : l.state = some state) (h : Holds l [] s a w m)
    (problem : Problem) (hm : l.scan state = m.fail problem) : Follows l (a.fails problem) := by
  have hstep : l.step = m.fail problem := (step_eq hs).trans hm
  have hgaveUp := h.gaveUp problem
  rw [← hstep] at hgaveUp
  exact .failed (n := 1) hgaveUp.stopped hgaveUp.queue hgaveUp.error

/-- A step that finishes tokens. -/
theorem follows_rests {state : State} (hs : l.state = some state) (h : Holds l ts next b [] m)
    (hm : l.scan state = m.goto next.mode.state) : Follows l (.read ts next b) := by
  have hstep : l.step = m.goto next.mode.state := (step_eq hs).trans hm
  refine .read (n := 1) ?_ ?_ ?_ <;> rw [Function.iterate_one, hstep]
  · exact ⟨(h.goto _).self, rfl⟩
  · exact h.queue
  · exact h.error

/-- A step that finishes one token. It may count parentheses as it does. -/
theorem follows_emit {state : State} {kind : Kind} {n : Lexer} (next : Stance) (hs : l.state = some state)
    (h : Holds l [] s a w m) (hw : w ≠ []) (hm : l.scan state = n.goto next.mode.state)
    (hn : n = { m.emit kind with parens := n.parens, outer := n.outer })
    (parens : n.parens = next.parens) (outer : n.outer = next.outer) :
    Follows l (a.reads kind w next) := by
  have he := h.emit hw kind
  have hnext : Holds l [a.token kind w] next (a.past w) [] n := by
    rw [hn]
    exact { he with parens := parens, outer := outer }
  exact follows_rests hs hnext hm

/-! ## Declarations -/

theorem follows_letName (h : Rests s a l) (hs : l.state = some .letName) :
    Follows l (s.letName a.skip) := by
  have hk := h.holds.skipBlanks
  have hscan : l.scan .letName = l.scanLetName := rfl
  unfold scanLetName at hscan
  unfold Stance.letName
  rw [← h.holds.ahead_skipBlanks]
  dsimp only at hscan ⊢
  split
  · rename_i hname
    rw [if_pos hname] at hscan
    rw [h.holds.ahead_skipBlanks] at hname
    have hemit := hk.word.emit (Spot.word_ne_nil hname) .identifier
    have hgap := hemit.skipBlanks
    rw [← hemit.ahead_skipBlanks]
    split
    · rename_i hcolon
      rw [if_pos hcolon] at hscan
      have htwo := (hgap.takeOne hcolon).emit (by simp) (.keyword .typeSeparator)
      exact follows_rests hs (htwo.mode .letType) hscan
    · rename_i hcolon
      rw [if_neg hcolon] at hscan
      exact follows_rests hs (hgap.mode .letAssign) hscan
  · rename_i hname
    rw [if_neg hname] at hscan
    exact follows_fail hs hk _ hscan

theorem follows_letType (h : Rests s a l) (hs : l.state = some .letType) :
    Follows l (s.letType a.skip) := by
  have hk := h.holds.skipBlanks
  have hscan : l.scan .letType = l.scanLetType := rfl
  unfold scanLetType at hscan
  unfold Stance.letType
  rw [← h.holds.ahead_skipBlanks]
  dsimp only at hscan ⊢
  split
  · rename_i hname
    rw [if_pos hname] at hscan
    rw [h.holds.ahead_skipBlanks] at hname
    have hword := hk.word
    rw [hword.lexeme] at hscan
    split
    · rename_i problem hlookup
      rw [hlookup] at hscan
      exact follows_fail hs hword problem hscan
    · rename_i word hlookup
      rw [hlookup] at hscan
      have hparens : (l.skipBlanks.takeRun Rune.continuesName).parens = s.parens := hword.parens
      dsimp only at hscan
      rw [hparens] at hscan
      refine follows_emit (n := (l.skipBlanks.takeRun Rune.continuesName).emit (.type word)) _ hs
        hword (Spot.word_ne_nil hname) (hscan.trans ?_) rfl hparens hword.outer
      show _ = goto (Mode.state (if _ then _ else if _ then _ else _)) _
      split
      · rfl
      split <;> rfl
  · rename_i hname
    rw [if_neg hname] at hscan
    exact follows_fail hs hk _ hscan

theorem follows_tupleTypeOpen (h : Rests s a l) (hs : l.state = some .tupleTypeOpen) :
    Follows l (s.tupleTypeOpen a.skip) := by
  have hk := h.holds.skipBlanks
  have hscan : l.scan .tupleTypeOpen = l.scanTupleTypeOpen := rfl
  unfold scanTupleTypeOpen at hscan
  unfold Stance.tupleTypeOpen
  rw [← h.holds.ahead_skipBlanks]
  dsimp only at hscan ⊢
  split
  · rename_i hopen
    rw [if_pos hopen] at hscan
    have hword := hk.takeOne hopen
    exact follows_emit _ hs hword (by simp) hscan rfl (congrArg (· + 1) hword.parens) hword.outer
  · rename_i hopen
    rw [if_neg hopen] at hscan
    exact follows_fail hs hk _ hscan

theorem follows_tupleTypeNext (h : Rests s a l) (hs : l.state = some .tupleTypeNext) :
    Follows l (s.tupleTypeNext a.skip) := by
  have hk := h.holds.skipBlanks
  have hscan : l.scan .tupleTypeNext = l.scanTupleTypeNext := rfl
  unfold scanTupleTypeNext at hscan
  unfold Stance.tupleTypeNext
  rw [← h.holds.ahead_skipBlanks]
  dsimp only at hscan ⊢
  split
  · rename_i hclose
    rw [if_pos hclose] at hscan
    have hword := hk.takeOne hclose
    have hparens := congrArg (· - 1) hword.parens
    refine follows_emit (n := (l.skipBlanks.takeOne.emit .closeParen).closeGroup) _ hs hword
      (by simp) (hscan.trans ?_) rfl hparens hword.outer
    have hcount : (l.skipBlanks.takeOne.emit .closeParen).closeGroup.parens = s.parens - 1 :=
      hparens
    rw [hcount]
    show _ = goto (Mode.state (if _ then _ else _)) _
    split <;> rfl
  rename_i hclose
  rw [if_neg hclose] at hscan
  split
  · rename_i hcomma
    rw [if_pos hcomma] at hscan
    have hword := hk.takeOne hcomma
    exact follows_emit _ hs hword (by simp) hscan rfl hword.parens hword.outer
  · rename_i hcomma
    rw [if_neg hcomma] at hscan
    exact follows_fail hs hk _ hscan

theorem follows_letAssign (h : Rests s a l) (hs : l.state = some .letAssign) :
    Follows l (s.letAssign a.skip) := by
  have hk := h.holds.skipBlanks
  have hscan : l.scan .letAssign = l.scanLetAssign := rfl
  unfold scanLetAssign at hscan
  unfold Stance.letAssign
  rw [← h.holds.ahead_skipBlanks]
  dsimp only at hscan ⊢
  split
  · rename_i hassign
    rw [if_pos hassign] at hscan
    have hword := hk.takeOne hassign
    exact follows_emit _ hs hword (by simp) hscan rfl hword.parens hword.outer
  · rename_i hassign
    rw [if_neg hassign] at hscan
    exact follows_fail hs hk _ hscan

/-! ## Operands -/

/-- A lexer that holds the first part of a name. -/
theorem follows_name (h : Holds l [] s a v l) (hs : l.state = some .name)
    (hv : v ++ (a.past v).run Rune.continuesName = a.word) (hn : a.word ≠ []) :
    Follows l (s.name a) := by
  have hword := h.takeRun Rune.continuesName
  rw [hv] at hword
  have hscan : l.scan .name = l.scanName := rfl
  unfold scanName at hscan
  unfold Stance.name
  dsimp only at hscan ⊢
  -- The blanks behind a name are skipped before it is finished, which makes no difference.
  have hgap : ∀ kind, Holds l [a.token kind a.word] s (a.past a.word).skip []
      ((l.takeRun Rune.continuesName).skipBlanks.emit kind) := fun kind =>
    (hword.emit hn kind).skipBlanks
  have hahead := (hword.emit hn .identifier).ahead_skipBlanks
  rw [← hahead]
  split
  · rename_i hopen
    rw [if_pos (show (l.takeRun Rune.continuesName).skipBlanks.ahead = some '(' from hopen)]
      at hscan
    have htwo := ((hgap .function).takeOne hopen).emit (by simp) .openParen
    have hcall : Holds l [a.token .function a.word, ((a.past a.word).skip).token .openParen ['(']]
        ⟨.operand, 0, s.parens :: s.outer⟩ ((a.past a.word).skip.past ['('])  []
        (((l.takeRun Rune.continuesName).skipBlanks.emit .function).takeOne.emit
          .openParen).openCall :=
      { htwo with parens := rfl, outer := congrArg₂ List.cons htwo.parens htwo.outer }
    exact follows_rests hs hcall hscan
  · rename_i hopen
    rw [if_neg (show ¬ (l.takeRun Rune.continuesName).skipBlanks.ahead = some '(' from hopen)]
      at hscan
    exact follows_rests hs ((hgap .identifier).mode .afterOperand) hscan

/-- What a lexer does behind the point of a number: it finishes the float that stands there, or it
gives up, and the literal of the problem is all that it has consumed of the number. -/
theorem scan_fraction {whole : List Char} (h : Holds l [] s a (whole ++ ['.']) l) :
    (∃ m w, Holds l [] s a w m ∧ w ≠ [] ∧
        s.fraction a whole = a.reads .float w (s.goto .afterOperand) ∧
        l.scan .fraction = (m.emit .float).goto .afterOperand) ∨
      ∃ m w, Holds l [] s a w m ∧
        s.fraction a whole = a.fails (.malformedFloat (String.ofList w)) ∧
        l.scan .fraction = m.fail (.malformedFloat (String.ofList w)) := by
  have hdigits := h.takeRun Rune.inNumber
  have hahead := h.ahead_takeRun Rune.inNumber
  have hlonger := h.taken_lt_takeRun Rune.inNumber
  rw [← Spot.past_past] at hahead
  have hscan : l.scan .fraction = l.scanFraction := rfl
  unfold scanFraction at hscan
  unfold Stance.fraction
  dsimp only at hscan ⊢
  by_cases he : ((a.past (whole ++ ['.'])).past
      ((a.past (whole ++ ['.'])).run Rune.inNumber)).ahead = some 'e' ∧
        (a.past (whole ++ ['.'])).run Rune.inNumber ≠ []
  · rw [if_pos he]
    rw [← hahead] at he
    rw [if_pos ⟨he.1, hlonger.mpr he.2⟩] at hscan
    have hpoint := hdigits.takeOne he.1
    have hexponent := hpoint.takeRun Rune.inNumber
    have hlonger := hpoint.taken_lt_takeRun Rune.inNumber
    rw [List.append_assoc (whole ++ ['.']), ← Spot.past_past a (whole ++ ['.'])]
      at hlonger hexponent
    by_cases hx : ((a.past (whole ++ ['.'])).past
        ((a.past (whole ++ ['.'])).run Rune.inNumber ++ ['e'])).run Rune.inNumber ≠ []
    · rw [if_pos (hlonger.mpr hx)] at hscan
      refine .inl ⟨_, _, hexponent, by simp, ?_, hscan⟩
      rw [if_pos hx]
      simp
    · rw [if_neg fun hn => hx (hlonger.mp hn), hexponent.lexeme] at hscan
      refine .inr ⟨_, _, hexponent, ?_, hscan⟩
      rw [if_neg hx, not_not.mp hx]
      simp
  · rw [if_neg he]
    rw [← hahead] at he
    rw [if_neg fun hn => he ⟨hn.1, hlonger.mp hn.2⟩, hdigits.lexeme] at hscan
    refine .inr ⟨_, _, hdigits, ?_, hscan⟩
    rw [List.append_assoc]
    rfl

theorem follows_fraction {whole : List Char} (h : Holds l [] s a (whole ++ ['.']) l)
    (hs : l.state = some .fraction) : Follows l (s.fraction a whole) := by
  rcases scan_fraction h with ⟨m, w, hm, hw, hphrase, hscan⟩ | ⟨m, w, hm, hphrase, hscan⟩
  · rw [hphrase]
    exact follows_emit _ hs hm hw hscan rfl hm.parens hm.outer
  · rw [hphrase]
    exact follows_fail hs hm _ hscan

theorem follows_number (h : Holds l [] s a [] l) (hs : l.state = some .number)
    (hn : a.run Rune.inNumber ≠ []) : Follows l (s.number a) := by
  have hwhole : Holds l [] s a (a.run Rune.inNumber) (l.takeRun Rune.inNumber) := h.takeRun _
  have hahead : (l.takeRun Rune.inNumber).ahead = (a.past (a.run Rune.inNumber)).ahead :=
    h.ahead_takeRun _
  have hscan : l.scan .number = l.scanNumber := rfl
  unfold scanNumber at hscan
  unfold Stance.number
  dsimp only at hscan ⊢
  rw [← hahead]
  split
  · rename_i hpoint
    rw [if_pos hpoint] at hscan
    exact follows_goto hs (hwhole.takeOne hpoint) hscan fun n => follows_fraction
  · rename_i hpoint
    rw [if_neg hpoint] at hscan
    exact follows_emit _ hs hwhole hn hscan rfl hwhole.parens hwhole.outer

/-- A lexer that has skipped to a quote. -/
theorem follows_quoted {state : State} {quote : Char} {body : Char → Bool} {kind : Kind}
    (hs : l.state = some state) (h : Holds l [] s a [] m) (hq : m.ahead = some quote)
    (hm : l.scan state = m.scanQuoted quote body kind) :
    Follows l (s.quoted a quote body kind) := by
  have hinner := (h.takeOne hq).takeRun body
  have hahead := (h.takeOne hq).ahead_takeRun body
  unfold scanQuoted at hm
  unfold Stance.quoted
  dsimp only at hm ⊢
  rw [List.nil_append] at hinner hahead
  rw [show quote :: (a.past [quote]).run body = [quote] ++ (a.past [quote]).run body from rfl,
    ← hahead]
  split
  · rename_i hclose
    rw [if_pos hclose] at hm
    have hword := hinner.takeOne hclose
    have hlit := follows_emit (s.goto .afterOperand) hs hword (by simp) hm rfl
      hword.parens hword.outer
    simpa using hlit
  · rename_i hclose
    rw [if_neg hclose, hinner.lexeme] at hm
    exact follows_fail hs hinner _ hm

theorem lexeme_munch (arity : Arity) (l : Lexer) :
    (l.munch arity).lexeme = Operator.longest arity l.lexeme l.cursor.remaining := by
  fun_induction munch arity l with
  | case1 l m h =>
    rw [(of_take_none h).1]
    simp [lexeme, (of_take_none h).2.2.1, Operator.longest]
  | case2 l r m h hp ih =>
    have hlexeme : m.lexeme = l.lexeme ++ [r] := by simp [lexeme, taken_of_take h]
    rw [hlexeme] at hp ih
    rw [ih, remaining_of_take h, Operator.longest, if_pos hp]
  | case3 l r m h hp =>
    have hlexeme : m.lexeme = l.lexeme ++ [r] := by simp [lexeme, taken_of_take h]
    rw [hlexeme] at hp
    rw [remaining_of_take h, Operator.longest, if_neg hp]
    simp [lexeme, (of_take_giveBack h).2.1]

/-- A lexer that munches from a spot on holds what has been read of an operator there. -/
theorem Holds.munch (h : Holds l ts s a [] m) (arity : Arity) :
    Holds l ts s a (Operator.longest arity [] a.rest) (m.munch arity) := by
  obtain ⟨w, hw⟩ := took_munch arity m
  have hheld := h.took hw
  have hlexeme := hheld.lexeme
  rw [lexeme_munch, h.lexeme, h.remaining] at hlexeme
  rw [← hlexeme] at hheld
  exact hheld

/-- A lexer before an operator. -/
theorem follows_operator {arity : Arity} {state : State} (h : Holds l [] s a [] l)
    (hs : l.state = some state) (hm : l.scan state = l.scanOperator arity) :
    Follows l (s.operator a arity) := by
  have hpeek : Holds l [] s a [] l.peek := by simpa using h.took (took_peek l)
  have hahead : l.peek.ahead = a.ahead := by
    rw [ahead_peek, h.remaining]
    rfl
  unfold scanOperator at hm
  unfold Stance.operator
  dsimp only at hm ⊢
  rw [← hahead]
  split
  · rename_i hrune
    rw [if_pos hrune] at hm
    have hword := hpeek.munch arity
    rw [hword.lexeme] at hm
    split
    · rename_i op hop
      rw [hop] at hm
      exact follows_emit _ hs hword (Operator.ne_nil_of_lookup hop) hm rfl hword.parens hword.outer
    · rename_i problem hop
      rw [hop] at hm
      exact follows_fail hs hword problem hm
  · rename_i hrune
    rw [if_neg hrune] at hm
    exact follows_fail hs hpeek _ hm

theorem close_of_some (hp : l.parens = s.parens) (ho : l.outer = s.outer)
    (h : s.close = some next) :
    next.mode = .afterOperand ∧
      l.close = some { l with parens := next.parens, outer := next.outer } := by
  unfold Stance.close at h
  unfold close
  rw [hp, ho]
  cases hparens : s.parens with
  | succ parens =>
    rw [hparens] at h
    cases h
    rw [← ho]
    exact ⟨rfl, rfl⟩
  | zero =>
    cases houter : s.outer with
    | nil =>
      rw [hparens, houter] at h
      cases h
    | cons parens outer =>
      rw [hparens, houter] at h
      cases h
      exact ⟨rfl, rfl⟩

theorem close_of_none (hp : l.parens = s.parens) (ho : l.outer = s.outer) (h : s.close = none) :
    l.close = none := by
  unfold Stance.close at h
  unfold close
  rw [hp, ho]
  cases hparens : s.parens with
  | succ parens =>
    rw [hparens] at h
    cases h
  | zero =>
    cases houter : s.outer with
    | nil => rfl
    | cons parens outer =>
      rw [hparens, houter] at h
      cases h

/-- A lexer that has consumed a closing parenthesis. -/
theorem follows_closing (h : Holds l [] s a [')'] l) (hs : l.state = some .closing) :
    Follows l (s.closing a) := by
  have hscan : l.scan .closing = l.scanClosing := rfl
  unfold scanClosing at hscan
  unfold Stance.closing
  split
  · rename_i next hc
    obtain ⟨hmode, hclose⟩ := close_of_some h.parens h.outer hc
    rw [hclose] at hscan
    refine follows_emit (n := ({ l with parens := next.parens, outer := next.outer } : Lexer).emit
      .closeParen) _ hs h (by simp) (hscan.trans ?_) rfl rfl rfl
    rw [hmode]
    rfl
  · rename_i hc
    rw [close_of_none h.parens h.outer hc] at hscan
    exact follows_fail hs h _ hscan

theorem isLevel_eq (hp : l.parens = s.parens) (ho : l.outer = s.outer) :
    l.isLevel = s.isLevel := by
  unfold isLevel Stance.isLevel
  rw [hp, ho]

/-- A lexer that has consumed a comma. -/
theorem follows_comma (h : Holds l [] s a [','] l) (hs : l.state = some .comma) :
    Follows l (if s.isLevel then a.fails .misplacedComma
      else a.reads (.keyword .comma) [','] (s.goto .operand)) := by
  have hscan : l.scan .comma = l.scanComma := rfl
  unfold scanComma at hscan
  rw [isLevel_eq h.parens h.outer] at hscan
  split
  · rename_i hl
    rw [if_pos hl] at hscan
    exact follows_fail hs h _ hscan
  · rename_i hl
    rw [if_neg hl] at hscan
    exact follows_emit _ hs h (by simp) hscan rfl h.parens h.outer

/-- A lexer that has consumed a semicolon. -/
theorem follows_semicolon (h : Holds l [] s a [';'] l) (hs : l.state = some .semicolon) :
    Follows l (if s.isLevel then a.reads (.keyword .semicolon) [';'] (s.goto .statementHead)
      else a.fails .unbalancedStatement) := by
  have hscan : l.scan .semicolon = l.scanSemicolon := rfl
  unfold scanSemicolon at hscan
  rw [isLevel_eq h.parens h.outer] at hscan
  split
  · rename_i hl
    rw [if_pos hl] at hscan
    exact follows_emit _ hs h (by simp) hscan rfl h.parens h.outer
  · rename_i hl
    rw [if_neg hl] at hscan
    exact follows_fail hs h _ hscan

/-- Blanks aside, a lexer that expects an operand goes through it. -/
theorem follows_operand (h : Holds l [] s a [] l) (hs : l.state = some .operand) :
    Follows l (s.operand a.skip) := by
  have hk := h.skipBlanks
  have hscan : l.scan .operand = l.scanOperand := rfl
  unfold scanOperand at hscan
  unfold Stance.operand
  rw [← h.ahead_skipBlanks]
  dsimp only at hscan ⊢
  split
  · rename_i hahead
    rw [hahead] at hscan
    exact follows_halt hs hk hscan
  rename_i r hahead
  have hnext : a.skip.ahead = some r := h.ahead_skipBlanks.symm.trans hahead
  rw [hahead] at hscan
  dsimp only at hscan
  split
  · rename_i hr
    rw [if_pos hr] at hscan
    have hword := hk.takeOne (hr ▸ hahead)
    exact follows_emit _ hs hword (by simp) hscan rfl (congrArg (· + 1) hword.parens) hword.outer
  rename_i hr
  rw [if_neg hr] at hscan
  split
  · rename_i hr
    rw [if_pos hr] at hscan
    exact follows_goto hs (hk.takeOne (hr ▸ hahead)) hscan fun n => follows_closing
  rename_i hr
  rw [if_neg hr] at hscan
  split
  · rename_i hr
    rw [if_pos hr] at hscan
    have hn := Spot.run_ne_nil hnext (Rune.continuesName_of_startsName hr)
    exact follows_goto hs hk hscan fun n hm hstate => follows_name hm hstate rfl hn
  rename_i hr
  rw [if_neg hr] at hscan
  split
  · rename_i hr
    rw [if_pos hr] at hscan
    have hn := Spot.run_ne_nil hnext (Rune.inNumber_of_isDigit hr)
    exact follows_goto hs hk hscan fun n hm hstate => follows_number hm hstate hn
  rename_i hr
  rw [if_neg hr] at hscan
  split
  · rename_i hr
    rw [if_pos hr] at hscan
    exact follows_quoted hs hk (hr ▸ hahead) hscan
  rename_i hr
  rw [if_neg hr] at hscan
  split
  · rename_i hr
    rw [if_pos hr] at hscan
    exact follows_quoted hs hk (hr ▸ hahead) hscan
  rename_i hr
  rw [if_neg hr] at hscan
  split
  · rename_i hr
    rw [if_pos hr] at hscan
    exact follows_goto hs hk hscan fun n hm hstate => follows_operator hm hstate rfl
  · rename_i hr
    rw [if_neg hr] at hscan
    exact follows_fail hs hk _ hscan

/-! ## Between operands -/

theorem follows_afterOperand (h : Rests s a l) (hs : l.state = some .afterOperand) :
    Follows l (s.afterOperand a.skip) := by
  have hk := h.holds.skipBlanks
  have hscan : l.scan .afterOperand = l.scanAfterOperand := rfl
  unfold scanAfterOperand at hscan
  unfold Stance.afterOperand
  rw [← h.holds.ahead_skipBlanks]
  dsimp only at hscan ⊢
  split
  · rename_i hahead
    rw [hahead] at hscan
    exact follows_halt hs hk hscan
  rename_i r hahead
  rw [hahead] at hscan
  dsimp only at hscan
  split
  · rename_i hr
    rw [if_pos hr] at hscan
    exact follows_goto hs (hk.takeOne (hr ▸ hahead)) hscan fun n => follows_closing
  rename_i hr
  rw [if_neg hr] at hscan
  split
  · rename_i hr
    rw [if_pos hr] at hscan
    exact follows_goto hs (hk.takeOne (hr ▸ hahead)) hscan fun n => follows_comma
  rename_i hr
  rw [if_neg hr] at hscan
  split
  · rename_i hr
    rw [if_pos hr] at hscan
    exact follows_goto hs (hk.takeOne (hr ▸ hahead)) hscan fun n => follows_semicolon
  · rename_i hr
    rw [if_neg hr] at hscan
    exact follows_goto hs hk hscan fun n hm hstate => follows_operator hm hstate rfl

/-! ## The head of a statement -/

/-- A lexer before the first word of a statement. -/
theorem follows_leadingWord {r : Char} (h : Holds l [] s a [] l)
    (hs : l.state = some .leadingWord) (ha : a.ahead = some r) (hr : Rune.startsName r = true) :
    Follows l (s.statementHead a) := by
  have hword := h.word
  have hn : a.word ≠ [] := Spot.run_ne_nil ha (Rune.continuesName_of_startsName hr)
  have hscan : l.scan .leadingWord = l.scanLeadingWord := rfl
  unfold scanLeadingWord at hscan
  unfold Stance.statementHead
  dsimp only at hscan ⊢
  rw [hword.lexeme] at hscan
  split
  · rename_i hlet
    rw [if_pos hlet] at hscan
    exact follows_emit _ hs hword hn hscan rfl hword.parens hword.outer
  · rename_i hlet
    rw [if_neg hlet] at hscan
    have hname := hword.goto .name
    rw [← hscan] at hname
    have hrest : a.word ++ (a.past a.word).run Rune.continuesName = a.word := by
      rw [Spot.word, Spot.run_past_run, List.append_nil]
    rw [Stance.operand_of_startsName ha hr]
    exact .of_silent hs hname (follows_name hname.self (by rw [hscan]; rfl) hrest hn)

theorem follows_statementHead (h : Rests s a l) (hs : l.state = some .statementHead) :
    Follows l (s.statementHead a.skip) := by
  have hk := h.holds.skipBlanks
  have hscan : l.scan .statementHead = l.scanStatementHead := rfl
  unfold scanStatementHead at hscan
  dsimp only at hscan
  rw [h.holds.ahead_skipBlanks] at hscan
  split at hscan
  · rename_i ha
    have hword : a.skip.word ≠ Keyword.letWord.spelling := fun hw => by
      rw [Spot.ahead_of_word_let hw] at ha
      cases ha
    unfold Stance.statementHead Stance.operand
    rw [if_neg hword, ha]
    exact follows_halt hs hk hscan
  · rename_i r ha
    by_cases hr : Rune.startsName r = true
    · rw [if_pos hr] at hscan
      exact follows_goto hs hk hscan fun n hm hstate => follows_leadingWord hm hstate ha hr
    · rw [if_neg hr] at hscan
      have hoperand := hk.goto .operand
      rw [← hscan] at hoperand
      have hword : a.skip.word ≠ Keyword.letWord.spelling := fun hw => by
        rw [Spot.ahead_of_word_let hw] at ha
        cases ha
        exact hr (by decide +kernel)
      have hfollows := follows_operand hoperand.self (by rw [hscan]; rfl)
      rw [Spot.skip_skip] at hfollows
      unfold Stance.statementHead
      rw [if_neg hword]
      exact .of_silent hs hoperand hfollows

/-! ## Phrase after phrase -/

/-- A lexer that rests goes through the phrase that comes next. -/
theorem follows_phrase (h : Rests s a l) : Follows l (phrase s a) := by
  have hs := h.state
  unfold phrase
  split
  · rename_i hm
    exact follows_statementHead h (by rw [hs, hm]; rfl)
  · rename_i hm
    exact follows_letName h (by rw [hs, hm]; rfl)
  · rename_i hm
    exact follows_letType h (by rw [hs, hm]; rfl)
  · rename_i hm
    exact follows_tupleTypeOpen h (by rw [hs, hm]; rfl)
  · rename_i hm
    exact follows_tupleTypeNext h (by rw [hs, hm]; rfl)
  · rename_i hm
    exact follows_letAssign h (by rw [hs, hm]; rfl)
  · rename_i hm
    exact follows_operand h.holds (by rw [hs, hm]; rfl)
  · rename_i hm
    exact follows_afterOperand h (by rw [hs, hm]; rfl)

/-- Some number of steps take a lexer that rests to the end of its reading. -/
theorem iterate_reading (s : Stance) (a : Spot) : ∀ l : Lexer, Rests s a l → l.error = none →
    ∃ n, (step^[n] l).state = none ∧ (step^[n] l).queue = l.queue ++ (reading s a).1 ∧
      (step^[n] l).error = (reading s a).2 := by
  intro l h he
  have follows := follows_phrase h
  generalize hp : phrase s a = p at follows
  cases follows with
  | @ended n state queue error =>
    rw [reading_of_ended hp]
    exact ⟨n, state, queue.trans (List.append_nil _).symm, error.trans he⟩
  | @failed n d state queue error =>
    rw [reading_of_failed hp]
    exact ⟨n, state, queue, error⟩
  | @read n ts next b rests queue error =>
    rw [reading_of_read hp]
    have hlt := length_lt_of_phrase hp
    obtain ⟨k, hs, hq, hr⟩ := iterate_reading next b _ rests (error.trans he)
    refine ⟨k + n, ?_, ?_, ?_⟩ <;> rw [Function.iterate_add_apply]
    · exact hs
    · rw [hq, queue, List.append_assoc]
    · exact hr
termination_by a.rest.length

/-- A lexer that expects nothing more stays as it is. -/
theorem iterate_of_none (h : l.state = none) (n : Nat) : step^[n] l = l := by
  induction n with
  | zero => rfl
  | succ n ih =>
    rw [Function.iterate_succ_apply, step_of_none h]
    exact ih

/-- Whenever a lexer comes to expect nothing more, it is the same. -/
theorem iterate_eq_of_none {k n : Nat} (hk : (step^[k] l).state = none)
    (hn : (step^[n] l).state = none) : step^[k] l = step^[n] l := by
  rcases Nat.le_total k n with hle | hle
  · obtain ⟨i, rfl⟩ := Nat.exists_eq_add_of_le' hle
    rw [Function.iterate_add_apply, iterate_of_none hk]
  · obtain ⟨i, rfl⟩ := Nat.exists_eq_add_of_le' hle
    rw [Function.iterate_add_apply, iterate_of_none hn]

theorem rests_ofRunes (source : List Char) (file : String) :
    Rests .start (.first source file) (ofRunes source file) where
  holds := ⟨rfl, rfl, rfl, rfl, rfl, rfl, rfl, rfl, rfl⟩
  state := rfl

/-- Whenever a lexer comes to expect nothing more, its tokens are those that are finished, and the
lexer that is left is the one of that moment without them. -/
theorem tokens_of_iterate {n : Nat} (h : (step^[n] l).state = none) :
    l.tokens.1 = (step^[n] l).queue ∧ l.tokens.2 = (step^[n] l).emptied := by
  obtain ⟨k, hs, hq, he⟩ := tokens_eq_iterate l
  rw [hq, he, iterate_eq_of_none hs h]
  exact ⟨rfl, rfl⟩

/-- All tokens of a source, and the problem that the lexer meets, are the reading of it. -/
theorem tokens_eq_reading (source : List Char) (file : String) :
    (ofRunes source file).tokens.1 = (reading .start (.first source file)).1 ∧
      (ofRunes source file).tokens.2.error = (reading .start (.first source file)).2 := by
  obtain ⟨n, hs, hq, he⟩ :=
    iterate_reading .start (.first source file) _ (rests_ofRunes source file) rfl
  obtain ⟨hqueue, hemptied⟩ := tokens_of_iterate hs
  rw [hqueue, hemptied]
  exact ⟨hq, he⟩

/-- A problem that a lexer has met after some number of steps is the one that ends its tokens. -/
theorem problem_of_iterate {source : List Char} {file : String} {n : Nat} {d : Diagnostic}
    (h : (step^[n] (ofRunes source file)).error = some d) :
    (reading .start (.first source file)).2 = some d := by
  have course := course_iterate source file n
  have hs : (step^[n] (ofRunes source file)).state = none := by
    generalize step^[n] (ofRunes source file) = m at course h
    cases course with
    | working work =>
      have hnone : m.error = none := work.error
      rw [hnone] at h
      cases h
    | halted => rfl
    | failed => rfl
  rw [← (tokens_eq_reading source file).2, (tokens_of_iterate hs).2]
  exact h

end Lexer

end ExprYard
