import ExprYard.Proofs.Lexer.Tiles

/-!
# What one step of a lexer can do

A step does one of three things. It goes on: it finishes some tokens, at most two, and expects
something else (`Did.went`). It comes to the end of the input, which only a few states allow
(`Did.halted`). Or it gives up with a problem (`Did.failed`).

How a step goes on is a matter of kinds and counts alone, and `Turn` lists it: the automaton of the
language, with the counts of open parentheses as its stack. `Poised` is what holds whenever a state
is entered: most begin with no token being built, and the others know what has been consumed or
what is in sight. `did_step` is the account of a step, and every invariant of a run is derived from
it; the functions of the single states need not be opened again.
-/

namespace ExprYard

/-! ## The automaton -/

/-- The part of a lexer that decides which tokens may come next. -/
structure Control where
  state : State
  parens : Nat
  outer : List Nat

namespace State

/-- The states that a state may leave the rest of its work to, before a token is finished. -/
def silent : State → List State
  | .statementHead => [.leadingWord, .operand]
  | .leadingWord => [.name]
  | .operand => [.closing, .name, .number, .unaryOperator]
  | .number => [.fraction]
  | .afterOperand => [.closing, .comma, .semicolon, .binaryOperator]
  | _ => []

/-- Whether a state may finish an operand of one token. -/
def endsValue : State → Bool
  | .operand | .name | .number | .fraction => true
  | _ => false

/-- Whether the input may end in a state. -/
def mayEnd : State → Bool
  | .statementHead | .operand | .afterOperand => true
  | _ => false

end State

/-- What a lexer may finish in a state, and what it expects then. -/
inductive Turn : Control → List Token → Control → Prop where
  | silent {s s' : State} {p : Nat} {os : List Nat} (h : s' ∈ s.silent) :
      Turn ⟨s, p, os⟩ [] ⟨s', p, os⟩
  | letWord {t : Token} {p : Nat} {os : List Nat} (h : t.kind = .keyword .letWord) :
      Turn ⟨.leadingWord, p, os⟩ [t] ⟨.letName, p, os⟩
  /-- The name of a declaration, with the colon that announces its type. -/
  | typed {t c : Token} {p : Nat} {os : List Nat} (h : t.kind = .identifier)
      (hc : c.kind = .keyword .typeSeparator) : Turn ⟨.letName, p, os⟩ [t, c] ⟨.letType, p, os⟩
  | untyped {t : Token} {p : Nat} {os : List Nat} (h : t.kind = .identifier) :
      Turn ⟨.letName, p, os⟩ [t] ⟨.letAssign, p, os⟩
  | tupleWord {t : Token} {p : Nat} {os : List Nat} (h : t.kind = .type .tuple) :
      Turn ⟨.letType, p, os⟩ [t] ⟨.tupleTypeOpen, p, os⟩
  | elementType {t : Token} {word : TypeWord} {p : Nat} {os : List Nat} (h : t.kind = .type word)
      (hw : word ≠ .tuple) : Turn ⟨.letType, p + 1, os⟩ [t] ⟨.tupleTypeNext, p + 1, os⟩
  | wholeType {t : Token} {word : TypeWord} {os : List Nat} (h : t.kind = .type word)
      (hw : word ≠ .tuple) : Turn ⟨.letType, 0, os⟩ [t] ⟨.letAssign, 0, os⟩
  | openTuple {t : Token} {p : Nat} {os : List Nat} (h : t.kind = .openParen) :
      Turn ⟨.tupleTypeOpen, p, os⟩ [t] ⟨.letType, p + 1, os⟩
  | closeInnerTuple {t : Token} {p : Nat} {os : List Nat} (h : t.kind = .closeParen) :
      Turn ⟨.tupleTypeNext, p + 2, os⟩ [t] ⟨.tupleTypeNext, p + 1, os⟩
  | closeOuterTuple {t : Token} {os : List Nat} (h : t.kind = .closeParen) :
      Turn ⟨.tupleTypeNext, 1, os⟩ [t] ⟨.letAssign, 0, os⟩
  | typeComma {t : Token} {p : Nat} {os : List Nat} (h : t.kind = .keyword .comma) :
      Turn ⟨.tupleTypeNext, p + 1, os⟩ [t] ⟨.letType, p + 1, os⟩
  | assign {t : Token} {p : Nat} {os : List Nat} (h : t.kind = .keyword .assign) :
      Turn ⟨.letAssign, p, os⟩ [t] ⟨.operand, p, os⟩
  | openGroup {t : Token} {p : Nat} {os : List Nat} (h : t.kind = .openParen) :
      Turn ⟨.operand, p, os⟩ [t] ⟨.operand, p + 1, os⟩
  /-- A called name and the parenthesis of its arguments, which are counted anew. -/
  | openCall {t o : Token} {p : Nat} {os : List Nat} (h : t.kind = .function)
      (ho : o.kind = .openParen) : Turn ⟨.name, p, os⟩ [t, o] ⟨.operand, 0, p :: os⟩
  | value {t : Token} {s : State} {p : Nat} {os : List Nat} (hs : s.endsValue = true)
      (h : t.kind.isLiteral = true ∨ t.kind = .identifier) :
      Turn ⟨s, p, os⟩ [t] ⟨.afterOperand, p, os⟩
  /-- A comma is never read as an operator: it is met before operators are looked for. -/
  | binary {t : Token} {op : Operator} {p : Nat} {os : List Nat} (h : t.kind = .operator op)
      (ha : op.arity = .binary) (hc : op ≠ .comma) :
      Turn ⟨.binaryOperator, p, os⟩ [t] ⟨.operand, p, os⟩
  | unary {t : Token} {p : Nat} {os : List Nat} (h : t.kind = .operator .not) :
      Turn ⟨.unaryOperator, p, os⟩ [t] ⟨.operand, p, os⟩
  | closeGroup {t : Token} {p : Nat} {os : List Nat} (h : t.kind = .closeParen) :
      Turn ⟨.closing, p + 1, os⟩ [t] ⟨.afterOperand, p, os⟩
  | closeCall {t : Token} {p : Nat} {os : List Nat} (h : t.kind = .closeParen) :
      Turn ⟨.closing, 0, p :: os⟩ [t] ⟨.afterOperand, p, os⟩
  | comma {t : Token} {p : Nat} {os : List Nat} (h : t.kind = .keyword .comma)
      (hl : p ≠ 0 ∨ os ≠ []) : Turn ⟨.comma, p, os⟩ [t] ⟨.operand, p, os⟩
  | semicolon {t : Token} (h : t.kind = .keyword .semicolon) :
      Turn ⟨.semicolon, 0, []⟩ [t] ⟨.statementHead, 0, []⟩

/-- The kinds that a lexer gives to the tokens of a text. -/
def Kind.isSpoken : Kind → Bool
  | .eof | .error | .invalid | .emptyTuple | .operator .comma => false
  | _ => true

/-- Tokens of a text are no reports. -/
theorem Kind.ne_error_of_isSpoken {kind : Kind} (h : kind.isSpoken = true) : kind ≠ .error := by
  rintro rfl
  cases h

/-- What a lexer finishes as it goes on is neither a report nor a token of the parser's own. -/
theorem Turn.isSpoken {c c' : Control} {ts : List Token} (h : Turn c ts c') :
    ∀ t ∈ ts, t.kind.isSpoken = true := by
  intro t ht
  cases h with
  | silent => cases ht
  | typed h hc | openCall h hc =>
    rcases List.mem_cons.mp ht with rfl | ht
    · simp [h, Kind.isSpoken]
    · simp [List.mem_singleton.mp ht, hc, Kind.isSpoken]
  | elementType h | wholeType h => simp [List.mem_singleton.mp ht, h, Kind.isSpoken]
  | value hs h =>
    rw [List.mem_singleton.mp ht]
    rcases h with h | h
    · revert h
      generalize Token.kind _ = k
      intro h
      cases k <;> first | rfl | cases h
    · rw [h]
      rfl
  | @binary _ op _ _ h ha hc =>
    rw [List.mem_singleton.mp ht, h]
    cases op <;> first | rfl | exact (hc rfl).elim
  | letWord h | untyped h | tupleWord h | openTuple h | closeInnerTuple h | closeOuterTuple h
  | typeComma h | assign h | openGroup h | unary h | closeGroup h | closeCall h | comma h
  | semicolon h =>
    rw [List.mem_singleton.mp ht, h]
    rfl

namespace Lexer

/-! ## States as they are entered -/

/-- A name: a rune that starts one, and runes that go on with it. -/
def IsName (runes : List Char) : Prop :=
  ∃ r rest, runes = r :: rest ∧ Rune.startsName r = true ∧
    ∀ c ∈ rest, Rune.continuesName c = true

/-- What holds of a lexer when it enters a state. -/
def Poised (state : State) (l : Lexer) : Prop :=
  match state with
  | .leadingWord => l.taken = [] ∧ ∃ r, l.cursor.remaining.head? = some r ∧ Rune.startsName r = true
  | .name => l.Contiguous ∧
      IsName (l.lexeme ++ l.cursor.remaining.takeWhile Rune.continuesName)
  | .number => l.taken = [] ∧ ∃ r, l.cursor.remaining.head? = some r ∧ Rune.isDigit r = true
  | .fraction => l.Contiguous ∧ l.taken ≠ []
  | .binaryOperator => l.taken = [] ∧ l.cursor.remaining.head? ≠ some ','
  | .closing => l.Contiguous ∧ l.taken = [')']
  | .comma => l.Contiguous ∧ l.taken = [',']
  | .semicolon => l.Contiguous ∧ l.taken = [';']
  | .tupleTypeNext => l.taken = [] ∧ 0 < l.parens
  | _ => l.taken = []

/-! ## The account of a step -/

/-- `m` is `l` after it has finished nothing and decided nothing. -/
structure Quiet (l m : Lexer) : Prop where
  covers : Covers l [] m
  same : m = { l with cursor := m.cursor, taken := m.taken, start := m.start }

namespace Quiet

variable {l m n : Lexer}

theorem queue (h : Quiet l m) : m.queue = l.queue := by rw [h.same]

theorem error (h : Quiet l m) : m.error = l.error := by rw [h.same]

theorem parens (h : Quiet l m) : m.parens = l.parens := by rw [h.same]

theorem outer (h : Quiet l m) : m.outer = l.outer := by rw [h.same]

theorem trans (h : Quiet l m) (g : Quiet m n) : Quiet l n where
  covers := h.covers.trans g.covers
  same := by
    have hg := g.same
    rw [h.same] at hg
    exact hg

end Quiet

theorem Took.quiet {l m : Lexer} {w : List Char} (h : Took l w m) : Quiet l m :=
  ⟨h.covers, h.same⟩

theorem quiet_skipBlanks {l : Lexer} (h : l.taken = []) : Quiet l l.skipBlanks :=
  ⟨covers_skipBlanks h, rfl⟩

theorem quiet_refl {l : Lexer} : Quiet l l :=
  ⟨⟨rfl, [], rfl, rfl, .blanks (by simp)⟩, rfl⟩

/-- What a lexer may have done in a state. -/
inductive Did (state : State) (l : Lexer) : Lexer → Prop where
  /-- It has finished some tokens and expects something else. -/
  | went {m : Lexer} {next : State} {ts : List Token} (covers : Covers l ts m)
      (turn : Turn ⟨state, l.parens, l.outer⟩ ts ⟨next, m.parens, m.outer⟩)
      (expects : m.state = some next) (queue : m.queue = l.queue ++ ts) (error : m.error = l.error)
      (poised : Poised next m) : Did state l m
  /-- It has come to the end of the input, between tokens. -/
  | halted {n : Lexer} (quiet : Quiet l n) (hs : state.mayEnd = true) (spent : n.unspent = []) :
      Did state l n.halt
  /-- It has given up. -/
  | failed {n : Lexer} (quiet : Quiet l n) (problem : Problem) : Did state l (n.fail problem)

variable {l n : Lexer} {state next : State}

/-- A step that finishes nothing and leaves the rest to another state. -/
theorem Did.of_quiet (quiet : Quiet l n) (hs : next ∈ state.silent) (poised : Poised next n) :
    Did state l (n.goto next) := by
  refine .went (quiet.covers.recast rfl rfl rfl rfl) ?_ rfl ?_ quiet.error ?_
  · show Turn _ _ ⟨next, n.parens, n.outer⟩
    rw [quiet.parens, quiet.outer]
    exact .silent hs
  · exact quiet.queue.trans (List.append_nil _).symm
  · cases next <;> exact poised

/-- A step that finishes one token. It may count parentheses as it does. -/
theorem Did.of_emit {m : Lexer} (kind : Kind) (next : State) (quiet : Quiet l n)
    (hc : n.Contiguous) (hn : n.taken ≠ [])
    (hm : m = { n.emit kind with parens := m.parens, outer := m.outer, state := some next })
    (turn : Turn ⟨state, n.parens, n.outer⟩ [n.finished kind] ⟨next, m.parens, m.outer⟩)
    (poised : Poised next m) : Did state l m := by
  have covers : Covers l [n.finished kind] m := by
    rw [hm]
    exact (quiet.covers.trans (covers_emit kind hc hn)).recast rfl rfl rfl rfl
  rw [quiet.parens, quiet.outer] at turn
  refine .went covers turn (by rw [hm]) ?_ ?_ poised
  · rw [hm, ← quiet.queue]
    rfl
  · rw [hm, ← quiet.error]
    rfl

end Lexer

end ExprYard
