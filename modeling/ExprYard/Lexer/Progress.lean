import ExprYard.Lexer.Step

/-!
# A lexer's steps come to an end

Each step of a lexer that still expects something lowers its `potential`, and so does handing out a
finished token. The potential is made of the runes that remain, of whether a token is being built,
of the finished tokens, and of a small number for what is expected next. A step that consumes no
rune goes to a state of a lower number, with room for the tokens that it finishes; a step to a state
of a higher number consumes a rune or finishes a token first.

`potential_step_lt` is the statement, for every lexer whatever and not only for those that a run can
reach.
-/

namespace ExprYard

namespace Lexer

/-- What the runes to come and the token being built are worth. -/
def stock (l : Lexer) : Nat :=
  13 * l.cursor.remaining.length + if l.taken.isEmpty then 0 else 6

/-- What a state is worth. -/
def worth : Option State → Nat
  | none => 0
  | some .binaryOperator | some .unaryOperator | some .fraction | some .letName | some .letType
  | some .tupleTypeOpen | some .tupleTypeNext | some .letAssign => 2
  | some .afterOperand => 3
  | some .name | some .number | some .closing => 5
  | some .leadingWord | some .operand => 6
  | some .statementHead => 7
  | some .comma => 8
  | some .semicolon => 9

/-- What a lexer can still spend on steps and on handing out tokens. -/
def potential (l : Lexer) : Nat :=
  l.queue.length + l.stock + worth l.state

/-! ## What the moves leave alone -/

@[simp] theorem queue_take (l : Lexer) : l.take.2.queue = l.queue := by
  simp only [take]
  split <;> rfl

@[simp] theorem queue_takeOne (l : Lexer) : l.takeOne.queue = l.queue := queue_take l

@[simp] theorem queue_giveBack (l : Lexer) : l.giveBack.queue = l.queue := by
  simp only [giveBack]
  split <;> rfl

@[simp] theorem queue_skipBlanks (l : Lexer) : l.skipBlanks.queue = l.queue := rfl

@[simp] theorem queue_peek (l : Lexer) : l.peek.queue = l.queue := rfl

@[simp] theorem queue_takeRun (p : Char → Bool) (l : Lexer) : (l.takeRun p).queue = l.queue := by
  fun_induction takeRun p l with
  | case1 l m h => rw [← queue_take l, h]
  | case2 l r m h hp ih => rw [ih, ← queue_take l, h]
  | case3 l r m h hp => rw [queue_giveBack, ← queue_take l, h]

@[simp] theorem queue_munch (arity : Arity) (l : Lexer) : (l.munch arity).queue = l.queue := by
  fun_induction munch arity l with
  | case1 l m h => rw [← queue_take l, h]
  | case2 l r m h hp ih => rw [ih, ← queue_take l, h]
  | case3 l r m h hp => rw [queue_giveBack, ← queue_take l, h]

@[simp] theorem queue_openGroup (l : Lexer) : l.openGroup.queue = l.queue := rfl

@[simp] theorem queue_closeGroup (l : Lexer) : l.closeGroup.queue = l.queue := rfl

@[simp] theorem queue_openCall (l : Lexer) : l.openCall.queue = l.queue := rfl

@[simp] theorem length_queue_emit (kind : Kind) (l : Lexer) :
    (l.emit kind).queue.length = l.queue.length + 1 := by
  simp [emit]

/-! ## What the moves cost -/

theorem stock_skipBlanks_le (l : Lexer) : l.skipBlanks.stock ≤ l.stock := by
  have : (l.cursor.remaining.dropWhile Rune.isBlank).length ≤ l.cursor.remaining.length :=
    (List.dropWhile_sublist Rune.isBlank).length_le
  simp only [stock, skipBlanks, Cursor.remaining_skipWhile]
  exact Nat.add_le_add_right (Nat.mul_le_mul_left 13 this) _

@[simp] theorem stock_peek (l : Lexer) : l.peek.stock = l.stock := by
  simp [stock, peek]

theorem stock_take {l m : Lexer} {r : Char} (h : l.take = (some r, m)) :
    m.stock + 7 ≤ l.stock := by
  have hr := remaining_of_take h
  simp only [stock, hr, List.length_cons]
  split <;> split <;> omega

theorem stock_take_none {l m : Lexer} (h : l.take = (none, m)) : m.stock = l.stock := by
  simp only [take] at h
  split at h
  · rename_i c hr
    cases h
    have := Cursor.remaining_of_read_none hr
    simp_all [stock, Cursor.remaining]
  · cases h

/-- Giving back the rune that was just consumed restores the stock. -/
theorem stock_giveBack_of_take {l m : Lexer} {r : Char} (h : l.take = (some r, m)) :
    m.giveBack.stock = l.stock := by
  simp only [take] at h
  split at h
  · cases h
  · rename_i s c hr
    cases h
    simp [stock, giveBack, Cursor.remaining_unread_of_read hr]

/-- A rune in sight is there to be consumed. -/
theorem take_of_ahead {l : Lexer} {r : Char} (h : l.ahead = some r) :
    l.take = (some r, l.takeOne) := by
  simp only [ahead] at h
  simp [takeOne, take, Cursor.read, h]

theorem stock_takeOne {l : Lexer} {r : Char} (h : l.ahead = some r) :
    l.takeOne.stock + 7 ≤ l.stock :=
  stock_take (take_of_ahead h)

theorem stock_takeRun_le (p : Char → Bool) (l : Lexer) : (l.takeRun p).stock ≤ l.stock := by
  fun_induction takeRun p l with
  | case1 l m h => exact Nat.le_of_eq (stock_take_none h)
  | case2 l r m h hp ih =>
    have := stock_take h
    omega
  | case3 l r m h hp => exact Nat.le_of_eq (stock_giveBack_of_take h)

/-- A run that starts with the rune in sight consumes it. -/
theorem stock_takeRun_lt {p : Char → Bool} {l : Lexer} {r : Char} (h : l.ahead = some r)
    (hp : p r = true) : (l.takeRun p).stock + 7 ≤ l.stock := by
  have ht := take_of_ahead h
  have h1 := stock_take ht
  have h2 := stock_takeRun_le p l.takeOne
  rw [takeRun]
  split
  · rename_i m hm
    simp [ht] at hm
  · rename_i s m hm
    rw [ht] at hm
    cases hm
    rw [if_pos hp]
    omega

theorem stock_munch_le (arity : Arity) (l : Lexer) : (l.munch arity).stock ≤ l.stock := by
  fun_induction munch arity l with
  | case1 l m h => exact Nat.le_of_eq (stock_take_none h)
  | case2 l r m h hp ih =>
    have := stock_take h
    omega
  | case3 l r m h hp => exact Nat.le_of_eq (stock_giveBack_of_take h)

theorem stock_emit_le (kind : Kind) (l : Lexer) : (l.emit kind).stock ≤ l.stock := by
  simp [emit, stock]

/-- Finishing a token that has runes frees what they were worth. -/
theorem stock_emit_lt {kind : Kind} {l : Lexer} (h : l.taken ≠ []) :
    (l.emit kind).stock + 6 ≤ l.stock := by
  simp [emit, stock, h]

/-! ## What a step costs -/

theorem potential_goto (state : State) (l : Lexer) :
    (l.goto state).potential = l.queue.length + l.stock + worth (some state) := rfl

theorem potential_halt (l : Lexer) : l.halt.potential = l.queue.length + l.stock := rfl

theorem potential_fail (problem : Problem) (l : Lexer) :
    (l.fail problem).potential ≤ l.queue.length + l.stock + 1 := by
  simp only [potential, fail, stock, worth, List.length_append, List.length_singleton,
    List.isEmpty_nil, if_true]
  omega

@[simp] theorem stock_openGroup (l : Lexer) : l.openGroup.stock = l.stock := rfl

@[simp] theorem stock_closeGroup (l : Lexer) : l.closeGroup.stock = l.stock := rfl

@[simp] theorem stock_openCall (l : Lexer) : l.openCall.stock = l.stock := rfl

/-- Closing a parenthesis touches neither the stock nor the queue. -/
theorem stock_queue_of_close {l m : Lexer} (h : l.close = some m) :
    m.stock = l.stock ∧ m.queue = l.queue := by
  simp only [close] at h
  split at h <;> cases h <;> exact ⟨rfl, rfl⟩

/-- The value of a lexer in a state, before the step that this state calls for. -/
def budget (l : Lexer) (state : State) : Nat :=
  l.queue.length + l.stock + worth (some state)

theorem potential_scanStatementHead_lt (l : Lexer) :
    l.scanStatementHead.potential < l.budget .statementHead := by
  have h := stock_skipBlanks_le l
  simp only [scanStatementHead, budget]
  split
  · simp only [potential_halt, queue_skipBlanks, worth]
    omega
  · split <;> simp only [potential_goto, queue_skipBlanks, worth] <;> omega

theorem potential_scanLeadingWord_lt (l : Lexer) :
    l.scanLeadingWord.potential < l.budget .leadingWord := by
  have h := stock_takeRun_le Rune.continuesName l
  have he := stock_emit_le (.keyword .letWord) (l.takeRun Rune.continuesName)
  simp only [scanLeadingWord, budget]
  split <;> simp only [potential_goto, length_queue_emit, queue_takeRun, worth] <;> omega

/-- A rune in sight that passes a test. -/
theorem exists_of_ahead_any {l : Lexer} {p : Char → Bool} (h : l.ahead.any p = true) :
    ∃ r, l.ahead = some r ∧ p r = true := by
  cases hr : l.ahead with
  | none => simp [hr] at h
  | some r => exact ⟨r, rfl, by simpa [hr] using h⟩

/-- A name in sight is worth more than the token it is finished as. -/
theorem stock_emit_takeRun_lt {l : Lexer} (kind : Kind) (h : l.ahead.any Rune.startsName = true) :
    ((l.takeRun Rune.continuesName).emit kind).stock + 7 ≤ l.stock := by
  obtain ⟨r, hr, hs⟩ := exists_of_ahead_any h
  have h1 := stock_takeRun_lt hr (Rune.continuesName_of_startsName hs)
  have h2 := stock_emit_le kind (l.takeRun Rune.continuesName)
  omega

/-- A rune in sight is worth more than the token it is finished as. -/
theorem stock_emit_takeOne_lt {l : Lexer} {r : Char} (kind : Kind) (h : l.ahead = some r) :
    (l.takeOne.emit kind).stock + 7 ≤ l.stock := by
  have h1 := stock_takeOne h
  have h2 := stock_emit_le kind l.takeOne
  omega

theorem potential_scanLetName_lt (l : Lexer) :
    l.scanLetName.potential < l.budget .letName := by
  have h := stock_skipBlanks_le l
  simp only [scanLetName, budget]
  split
  · rename_i hs
    have h1 := stock_emit_takeRun_lt .identifier hs
    have h2 := stock_skipBlanks_le ((l.skipBlanks.takeRun Rune.continuesName).emit .identifier)
    split
    · rename_i hc
      have h3 := stock_emit_takeOne_lt (.keyword .typeSeparator) hc
      simp only [potential_goto, length_queue_emit, queue_takeOne, queue_skipBlanks, queue_takeRun,
        worth]
      omega
    · simp only [potential_goto, length_queue_emit, queue_skipBlanks, queue_takeRun, worth]
      omega
  · have h1 := potential_fail (unexpected l.skipBlanks.ahead "a name after `let`") l.skipBlanks
    simp only [queue_skipBlanks, worth] at h1 ⊢
    omega

theorem potential_scanLetType_lt (l : Lexer) :
    l.scanLetType.potential < l.budget .letType := by
  have h := stock_skipBlanks_le l
  simp only [scanLetType, budget]
  split
  · rename_i hs
    obtain ⟨r, hr, hp⟩ := exists_of_ahead_any hs
    have h1 := stock_takeRun_lt hr (Rune.continuesName_of_startsName hp)
    split
    · rename_i problem _
      have h2 := potential_fail problem (l.skipBlanks.takeRun Rune.continuesName)
      simp only [queue_takeRun, queue_skipBlanks, worth] at h2 ⊢
      omega
    · rename_i word _
      have h2 := stock_emit_takeRun_lt (.type word) hs
      simp only [potential_goto, length_queue_emit, queue_takeRun, queue_skipBlanks]
      split
      · simp only [worth]
        omega
      · split <;> simp only [worth] <;> omega
  · have h1 := potential_fail (unexpected l.skipBlanks.ahead "a type") l.skipBlanks
    simp only [queue_skipBlanks, worth] at h1 ⊢
    omega

theorem potential_scanTupleTypeOpen_lt (l : Lexer) :
    l.scanTupleTypeOpen.potential < l.budget .tupleTypeOpen := by
  have h := stock_skipBlanks_le l
  simp only [scanTupleTypeOpen, budget]
  split
  · rename_i ho
    have h1 := stock_emit_takeOne_lt .openParen ho
    simp only [potential_goto, queue_openGroup, stock_openGroup, length_queue_emit, queue_takeOne,
      queue_skipBlanks, worth]
    omega
  · have h1 := potential_fail (unexpected l.skipBlanks.ahead "the element types of a tuple")
      l.skipBlanks
    simp only [queue_skipBlanks, worth] at h1 ⊢
    omega

theorem potential_scanTupleTypeNext_lt (l : Lexer) :
    l.scanTupleTypeNext.potential < l.budget .tupleTypeNext := by
  have h := stock_skipBlanks_le l
  simp only [scanTupleTypeNext, budget]
  split
  · rename_i hc
    have h1 := stock_emit_takeOne_lt .closeParen hc
    split <;>
      simp only [potential_goto, queue_closeGroup, stock_closeGroup, length_queue_emit,
        queue_takeOne, queue_skipBlanks, worth] <;>
      omega
  · split
    · rename_i hc
      have h1 := stock_emit_takeOne_lt (.keyword .comma) hc
      simp only [potential_goto, length_queue_emit, queue_takeOne, queue_skipBlanks, worth]
      omega
    · have h1 := potential_fail (unexpected l.skipBlanks.ahead "a tuple type") l.skipBlanks
      simp only [queue_skipBlanks, worth] at h1 ⊢
      omega

theorem potential_scanLetAssign_lt (l : Lexer) :
    l.scanLetAssign.potential < l.budget .letAssign := by
  have h := stock_skipBlanks_le l
  simp only [scanLetAssign, budget]
  split
  · rename_i ha
    have h1 := stock_emit_takeOne_lt (.keyword .assign) ha
    simp only [potential_goto, length_queue_emit, queue_takeOne, queue_skipBlanks, worth]
    omega
  · have h1 := potential_fail (unexpected l.skipBlanks.ahead "a `let` declaration") l.skipBlanks
    simp only [queue_skipBlanks, worth] at h1 ⊢
    omega

theorem potential_scanQuoted_le {l : Lexer} {r : Char} (h : l.ahead = some r) (quote : Char)
    (body : Char → Bool) (kind : Kind) :
    (l.scanQuoted quote body kind).potential ≤ l.queue.length + l.stock := by
  have h1 := stock_takeOne h
  have h2 := stock_takeRun_le body l.takeOne
  simp only [scanQuoted]
  split
  · rename_i hq
    have h3 := stock_emit_takeOne_lt kind hq
    simp only [potential_goto, length_queue_emit, queue_takeOne, queue_takeRun, worth]
    omega
  · have h3 := potential_fail (.unterminatedLiteral (String.ofList (l.takeOne.takeRun body).lexeme))
      (l.takeOne.takeRun body)
    simp only [queue_takeOne, queue_takeRun] at h3
    omega

theorem potential_scanOperand_lt (l : Lexer) :
    l.scanOperand.potential < l.budget .operand := by
  have h := stock_skipBlanks_le l
  simp only [scanOperand, budget]
  split
  · simp only [potential_halt, queue_skipBlanks, worth]
    omega
  · rename_i r hr
    have h1 := stock_takeOne hr
    split
    · have h2 := stock_emit_takeOne_lt .openParen hr
      simp only [potential_goto, queue_openGroup, stock_openGroup, length_queue_emit, queue_takeOne,
        queue_skipBlanks, worth]
      omega
    split
    · simp only [potential_goto, queue_takeOne, queue_skipBlanks, worth]
      omega
    split
    · simp only [potential_goto, queue_skipBlanks, worth]
      omega
    split
    · simp only [potential_goto, queue_skipBlanks, worth]
      omega
    split
    · have h2 := potential_scanQuoted_le hr '"' Rune.inString .string
      simp only [queue_skipBlanks, worth] at h2 ⊢
      omega
    split
    · have h2 := potential_scanQuoted_le hr '\'' Rune.inChar .char
      simp only [queue_skipBlanks, worth] at h2 ⊢
      omega
    split
    · simp only [potential_goto, queue_skipBlanks, worth]
      omega
    · have h2 := potential_fail (unexpected (some r) "an expression") l.skipBlanks
      simp only [queue_skipBlanks, worth] at h2 ⊢
      omega

theorem potential_scanName_lt (l : Lexer) : l.scanName.potential < l.budget .name := by
  have h1 := stock_takeRun_le Rune.continuesName l
  have h2 := stock_skipBlanks_le (l.takeRun Rune.continuesName)
  simp only [scanName, budget]
  split
  · rename_i ho
    have h3 : ((l.takeRun Rune.continuesName).skipBlanks.emit .function).ahead = some '(' := ho
    have h4 := stock_emit_le .function (l.takeRun Rune.continuesName).skipBlanks
    have h5 := stock_emit_takeOne_lt .openParen h3
    simp only [potential_goto, queue_openCall, stock_openCall, length_queue_emit, queue_takeOne,
      queue_skipBlanks, queue_takeRun, worth]
    omega
  · have h3 := stock_emit_le .identifier (l.takeRun Rune.continuesName).skipBlanks
    simp only [potential_goto, length_queue_emit, queue_skipBlanks, queue_takeRun, worth]
    omega

theorem potential_scanNumber_lt (l : Lexer) : l.scanNumber.potential < l.budget .number := by
  have h1 := stock_takeRun_le Rune.inNumber l
  simp only [scanNumber, budget]
  split
  · rename_i hp
    have h2 := stock_takeOne hp
    simp only [potential_goto, queue_takeOne, queue_takeRun, worth]
    omega
  · have h2 := stock_emit_le .integer (l.takeRun Rune.inNumber)
    simp only [potential_goto, length_queue_emit, queue_takeRun, worth]
    omega

theorem potential_scanFraction_lt (l : Lexer) :
    l.scanFraction.potential < l.budget .fraction := by
  have h1 := stock_takeRun_le Rune.inNumber l
  simp only [scanFraction, budget]
  split
  · rename_i he
    have h2 := stock_takeOne he.1
    have h3 := stock_takeRun_le Rune.inNumber (l.takeRun Rune.inNumber).takeOne
    split
    · have h4 := stock_emit_le .float ((l.takeRun Rune.inNumber).takeOne.takeRun Rune.inNumber)
      simp only [potential_goto, length_queue_emit, queue_takeOne, queue_takeRun, worth]
      omega
    · have h4 := potential_fail
        (.malformedFloat (String.ofList
          ((l.takeRun Rune.inNumber).takeOne.takeRun Rune.inNumber).lexeme))
        ((l.takeRun Rune.inNumber).takeOne.takeRun Rune.inNumber)
      simp only [queue_takeOne, queue_takeRun, worth] at h4 ⊢
      omega
  · have h2 := potential_fail (.malformedFloat (String.ofList (l.takeRun Rune.inNumber).lexeme))
      (l.takeRun Rune.inNumber)
    simp only [queue_takeRun, worth] at h2 ⊢
    omega

theorem potential_scanAfterOperand_lt (l : Lexer) :
    l.scanAfterOperand.potential < l.budget .afterOperand := by
  have h := stock_skipBlanks_le l
  simp only [scanAfterOperand, budget]
  split
  · simp only [potential_halt, queue_skipBlanks, worth]
    omega
  · rename_i r hr
    have h1 := stock_takeOne hr
    split
    · simp only [potential_goto, queue_takeOne, queue_skipBlanks, worth]
      omega
    split
    · simp only [potential_goto, queue_takeOne, queue_skipBlanks, worth]
      omega
    split
    · simp only [potential_goto, queue_takeOne, queue_skipBlanks, worth]
      omega
    · simp only [potential_goto, queue_skipBlanks, worth]
      omega

/-- An operator is never finished without runes. -/
theorem taken_ne_nil_of_lookup {l : Lexer} {arity : Arity} {op : Operator}
    (h : Operator.lookup l.lexeme arity = .ok op) : l.taken ≠ [] := by
  intro hn
  have := (Operator.lookup_eq_ok_iff.mp h).1
  rw [lexeme, hn] at this
  cases op <;> simp [Operator.spelling] at this

theorem potential_scanOperator_lt (arity : Arity) (l : Lexer) :
    (l.scanOperator arity).potential < l.queue.length + l.stock + 2 := by
  have h := stock_peek l
  simp only [scanOperator]
  split
  · have h1 := stock_munch_le arity l.peek
    split
    · rename_i op ho
      have h2 := @stock_emit_lt (.operator op) _ (taken_ne_nil_of_lookup ho)
      simp only [potential_goto, length_queue_emit, queue_munch, queue_peek, worth]
      omega
    · rename_i problem _
      have h2 := potential_fail problem (l.peek.munch arity)
      simp only [queue_munch, queue_peek] at h2
      omega
  · have h1 := potential_fail (unexpected l.peek.ahead "an operator position") l.peek
    simp only [queue_peek] at h1
    omega

theorem potential_scanClosing_lt (l : Lexer) : l.scanClosing.potential < l.budget .closing := by
  simp only [scanClosing, budget]
  split
  · rename_i m hm
    have h := stock_queue_of_close hm
    have he := stock_emit_le .closeParen m
    simp only [potential_goto, length_queue_emit, h.1, h.2, worth] at he ⊢
    omega
  · have h := potential_fail .extraneousParenthesis l
    simp only [worth]
    omega

theorem potential_scanComma_lt (l : Lexer) : l.scanComma.potential < l.budget .comma := by
  simp only [scanComma, budget]
  split
  · have h := potential_fail .misplacedComma l
    simp only [worth]
    omega
  · have h := stock_emit_le (.keyword .comma) l
    simp only [potential_goto, length_queue_emit, worth]
    omega

theorem potential_scanSemicolon_lt (l : Lexer) :
    l.scanSemicolon.potential < l.budget .semicolon := by
  simp only [scanSemicolon, budget]
  split
  · have h := stock_emit_le (.keyword .semicolon) l
    simp only [potential_goto, length_queue_emit, worth]
    omega
  · have h := potential_fail .unbalancedStatement l
    simp only [worth]
    omega

/-- Whatever a lexer does in a state costs something. -/
theorem potential_scan_lt (state : State) (l : Lexer) :
    (l.scan state).potential < l.budget state := by
  cases state with
  | statementHead => exact potential_scanStatementHead_lt l
  | leadingWord => exact potential_scanLeadingWord_lt l
  | letName => exact potential_scanLetName_lt l
  | letType => exact potential_scanLetType_lt l
  | tupleTypeOpen => exact potential_scanTupleTypeOpen_lt l
  | tupleTypeNext => exact potential_scanTupleTypeNext_lt l
  | letAssign => exact potential_scanLetAssign_lt l
  | operand => exact potential_scanOperand_lt l
  | name => exact potential_scanName_lt l
  | number => exact potential_scanNumber_lt l
  | fraction => exact potential_scanFraction_lt l
  | afterOperand => exact potential_scanAfterOperand_lt l
  | binaryOperator => exact potential_scanOperator_lt .binary l
  | unaryOperator => exact potential_scanOperator_lt .unary l
  | closing => exact potential_scanClosing_lt l
  | comma => exact potential_scanComma_lt l
  | semicolon => exact potential_scanSemicolon_lt l

/-- Every step of a lexer that expects something lowers its potential. -/
theorem potential_step_lt {l : Lexer} {state : State} (h : l.state = some state) :
    l.step.potential < l.potential := by
  have hs := potential_scan_lt state l
  simp only [step, h, potential, budget] at hs ⊢
  exact hs

end Lexer

end ExprYard
