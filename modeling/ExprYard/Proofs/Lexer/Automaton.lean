import ExprYard.Proofs.Lexer.Phrases

/-!
# A lexer between its words

What a lexer makes of a text is a matter of two things: which kinds of tokens may come in a stance,
and where a text of such a kind ends. `Stance.after` is the first, an automaton on kinds with the
counts of open parentheses as its stack, and `Spot.Lexeme` is the second. `Stance.Reads` joins them,
and a phrase reads exactly the words that it allows: it reads no others (`reads_of_phrase`), and
where they stand it does read them (`Stance.Reads.phrase`).

Most words are read one by one. A name that is called is read together with its parenthesis, and the
name of a declaration with the colon that announces its type.
-/

namespace ExprYard

/-! ## Words -/

/-- What a token is and how it is written. -/
abbrev Word := Kind × List Char

namespace Spot

/-- Words that stand one behind the other, with blanks between them, as tokens. -/
def utter (a : Spot) : List Word → List Token
  | [] => []
  | (kind, w) :: ws => a.token kind w :: (a.past w).skip.utter ws

/-- The spot behind such words, and behind the blanks there. -/
def beyond (a : Spot) : List Word → Spot
  | [] => a
  | (_, w) :: ws => (a.past w).skip.beyond ws

theorem utter_append (a : Spot) (vs ws : List Word) :
    a.utter (vs ++ ws) = a.utter vs ++ (a.beyond vs).utter ws := by
  induction vs generalizing a with
  | nil => rfl
  | cons v vs ih => exact congrArg (a.token v.1 v.2 :: ·) (ih _)

theorem beyond_append (a : Spot) (vs ws : List Word) :
    a.beyond (vs ++ ws) = (a.beyond vs).beyond ws := by
  induction vs generalizing a with
  | nil => rfl
  | cons v vs ih => exact ih _

end Spot

/-! ## The automaton -/

namespace Stance

/-- Whether an operand may begin. -/
def awaits (s : Stance) : Bool :=
  s.mode = .statementHead || s.mode = .operand

/-- The stance behind a token that an operand begins with, or that closes an empty group. -/
def begun (s : Stance) : Kind → Option Stance
  | .openParen => some ⟨.operand, s.parens + 1, s.outer⟩
  | .closeParen => s.close
  | .identifier | .integer | .float | .string | .char => some (s.goto .afterOperand)
  | .operator .not => some (s.goto .operand)
  | _ => none

/-- The stance behind a token that follows an operand. -/
def continued (s : Stance) : Kind → Option Stance
  | .closeParen => s.close
  | .keyword .comma => if s.isLevel then none else some (s.goto .operand)
  | .keyword .semicolon => if s.isLevel then some (s.goto .statementHead) else none
  | .operator op => if op.arity = .binary ∧ op ≠ .comma then some (s.goto .operand) else none
  | _ => none

/-- The stance behind a type. -/
def typed (s : Stance) : Kind → Option Stance
  | .type word =>
    some (s.goto (if word = .tuple then .tupleTypeOpen
      else if 0 < s.parens then .tupleTypeNext
      else .letAssign))
  | _ => none

/-- The stance behind a token of a kind, if one may be read by itself. -/
def after (s : Stance) (kind : Kind) : Option Stance :=
  match s.mode with
  | .statementHead =>
    if kind = .keyword .letWord then some (s.goto .letName) else s.begun kind
  | .letName => if kind = .identifier then some (s.goto .letAssign) else none
  | .letType => s.typed kind
  | .tupleTypeOpen =>
    if kind = .openParen then some ⟨.letType, s.parens + 1, s.outer⟩ else none
  | .tupleTypeNext =>
    if kind = .closeParen then
      some ⟨if 0 < s.parens - 1 then .tupleTypeNext else .letAssign, s.parens - 1, s.outer⟩
    else if kind = .keyword .comma then some (s.goto .letType)
    else none
  | .letAssign => if kind = .keyword .assign then some (s.goto .operand) else none
  | .operand => s.begun kind
  | .afterOperand => s.continued kind

/-- What a word must not look like, for it would be taken for something else. -/
structure Fits (s : Stance) (kind : Kind) (w : List Char) : Prop where
  /-- A number does not begin like a name. -/
  unlettered : kind = .integer ∨ kind = .float → w.head?.any Rune.startsName = false
  /-- A name at the head of a statement is not spelled like the word `let`. -/
  unmistaken : s.mode = .statementHead → kind = .identifier ∨ kind = .function →
    w ≠ Keyword.letWord.spelling

/-- The words that are read next at a spot where no blank stands, and the stance behind them. -/
inductive Reads (s : Stance) (a : Spot) : List Word → Stance → Prop where
  | word {kind : Kind} {w : List Char} {next : Stance} (lexeme : a.Lexeme (s.mode = .letName) kind w)
      (fits : s.Fits kind w) (after : s.after kind = some next)
      (untyped : s.mode = .letName → (a.past w).skip.ahead ≠ some ':') : Reads s a [(kind, w)] next
  /-- The name of a declaration, with the colon that announces its type. -/
  | typed {v w : List Char} (mode : s.mode = .letName) (name : a.Lexeme True .identifier v)
      (colon : (a.past v).skip.Lexeme False (.keyword .typeSeparator) w) :
      Reads s a [(.identifier, v), (.keyword .typeSeparator, w)] (s.goto .letType)
  /-- A called name and the parenthesis of its arguments, which are counted anew. -/
  | call {v w : List Char} (awaits : s.awaits = true) (name : a.Lexeme False .function v)
      (fits : s.Fits .function v) (opening : (a.past v).skip.Lexeme False .openParen w) :
      Reads s a [(.function, v), (.openParen, w)] ⟨.operand, 0, s.parens :: s.outer⟩

end Stance

/-! ## Nothing else is read -/

/-- Which kinds of tokens come next in a stance at a spot, and where they lead. -/
inductive Phrase.Goes (s : Stance) (a : Spot) : Phrase → Prop where
  | ended (may : s.mode.state.mayEnd = true) : Goes s a .ended
  | failed (d : Diagnostic) : Goes s a (.failed d)
  | single {t : Token} {next : Stance} {b : Spot} (after : s.after t.kind = some next)
      (unlettered : t.kind = .integer ∨ t.kind = .float → a.ahead.any Rune.startsName = false)
      (unmistaken : s.mode = .statementHead → t.kind ≠ .keyword .letWord →
        a.word ≠ Keyword.letWord.spelling)
      (untyped : s.mode = .letName → (a.past a.word).skip.ahead ≠ some ':') :
      Goes s a (.read [t] next b)
  | typed {t u : Token} {b : Spot} (mode : s.mode = .letName) (name : t.kind = .identifier)
      (colon : u.kind = .keyword .typeSeparator) : Goes s a (.read [t, u] (s.goto .letType) b)
  | call {t u : Token} {b : Spot} (awaits : s.awaits = true) (name : t.kind = .function)
      (opening : u.kind = .openParen)
      (unmistaken : s.mode = .statementHead → a.word ≠ Keyword.letWord.spelling) :
      Goes s a (.read [t, u] ⟨.operand, 0, s.parens :: s.outer⟩ b)

namespace Stance

variable {s : Stance} {a : Spot}

theorem not_letName_of_awaits (h : s.awaits = true) : s.mode ≠ .letName := by
  intro hm
  rw [awaits, hm] at h
  cases h

/-- Where an operand may begin, the text may end. -/
theorem mayEnd_of_awaits (h : s.awaits = true) : s.mode.state.mayEnd = true := by
  rcases (Bool.or_eq_true ..).mp h with hm | hm <;> rw [of_decide_eq_true hm] <;> rfl

/-- Where the text may end, an operand may begin, or one has ended. -/
theorem awaits_or_afterOperand (h : s.mode.state.mayEnd = true) :
    s.awaits = true ∨ s.mode = .afterOperand := by
  unfold awaits
  cases hm : s.mode with
  | statementHead | operand => exact .inl rfl
  | afterOperand => exact .inr rfl
  | _ =>
    rw [hm] at h
    cases h

/-- Where an operand may begin, all but the word `let` belongs to it. -/
theorem after_of_awaits {kind : Kind} (h : s.awaits = true) (hk : kind ≠ .keyword .letWord) :
    s.after kind = s.begun kind := by
  unfold awaits at h
  unfold after
  cases hm : s.mode with
  | statementHead => exact if_neg hk
  | operand => rfl
  | _ =>
    rw [hm] at h
    cases h

/-- Behind the word `let` stands a name. -/
theorem isWord_of_after {kind : Kind} {next : Stance} (hm : s.mode = .letName)
    (h : s.after kind = some next) : kind.isWord = true := by
  simp only [after, hm] at h
  split at h
  · rename_i hk
    rw [hk]
    rfl
  · cases h

theorem goes_letName (hm : s.mode = .letName) : (s.letName a).Goes s a := by
  unfold letName
  split
  · dsimp only
    split
    · exact .typed hm rfl rfl
    · rename_i hcolon
      refine .single ?_ (by simp [Spot.token]) (by simp [hm]) fun _ => hcolon
      simp [after, hm, Spot.token]
  · exact .failed _

theorem goes_letType (hm : s.mode = .letType) : (s.letType a).Goes s a := by
  unfold letType
  split
  · split
    · exact .failed _
    · refine .single ?_ (by simp [Spot.token]) (by simp [hm]) (by simp [hm])
      simp only [after, hm]
      rfl
  · exact .failed _

theorem goes_tupleTypeOpen (hm : s.mode = .tupleTypeOpen) : (s.tupleTypeOpen a).Goes s a := by
  unfold tupleTypeOpen
  split
  · refine .single ?_ (by simp [Spot.token]) (by simp [hm]) (by simp [hm])
    simp [after, hm, Spot.token]
  · exact .failed _

theorem goes_tupleTypeNext (hm : s.mode = .tupleTypeNext) : (s.tupleTypeNext a).Goes s a := by
  unfold tupleTypeNext
  split
  · refine .single ?_ (by simp [Spot.token]) (by simp [hm]) (by simp [hm])
    simp [after, hm, Spot.token]
  split
  · refine .single ?_ (by simp [Spot.token]) (by simp [hm]) (by simp [hm])
    simp [after, hm, Spot.token]
  · exact .failed _

theorem goes_letAssign (hm : s.mode = .letAssign) : (s.letAssign a).Goes s a := by
  unfold letAssign
  split
  · refine .single ?_ (by simp [Spot.token]) (by simp [hm]) (by simp [hm])
    simp [after, hm, Spot.token]
  · exact .failed _

/-- A word of an operand. -/
theorem goes_begun {kind : Kind} {w : List Char} {next : Stance} {b : Spot} (h : s.awaits = true)
    (hlet : s.mode = .statementHead → a.word ≠ Keyword.letWord.spelling)
    (hk : kind ≠ .keyword .letWord) (begun : s.begun kind = some next)
    (unlettered : kind = .integer ∨ kind = .float → a.ahead.any Rune.startsName = false) :
    (Phrase.read [a.token kind w] next b).Goes s a :=
  .single ((after_of_awaits h hk).trans begun) unlettered (fun hm _ => hlet hm)
    fun hm => (not_letName_of_awaits h hm).elim

theorem goes_name (h : s.awaits = true)
    (hlet : s.mode = .statementHead → a.word ≠ Keyword.letWord.spelling) :
    (s.name a).Goes s a := by
  unfold name
  dsimp only
  split
  · exact .call h rfl rfl hlet
  · exact goes_begun h hlet (by decide) rfl (by simp)

theorem goes_number (h : s.awaits = true)
    (hlet : s.mode = .statementHead → a.word ≠ Keyword.letWord.spelling)
    (hr : a.ahead.any Rune.startsName = false) : (s.number a).Goes s a := by
  unfold number fraction
  dsimp only
  split
  · split
    · split
      · exact goes_begun h hlet (by decide) rfl fun _ => hr
      · exact .failed _
    · exact .failed _
  · exact goes_begun h hlet (by decide) rfl fun _ => hr

theorem goes_quoted {quote : Char} {body : Char → Bool} {kind : Kind} (h : s.awaits = true)
    (hlet : s.mode = .statementHead → a.word ≠ Keyword.letWord.spelling)
    (hk : kind = .string ∨ kind = .char) : (s.quoted a quote body kind).Goes s a := by
  unfold quoted
  dsimp only
  split
  · rcases hk with rfl | rfl <;> exact goes_begun h hlet (by decide) rfl (by simp)
  · exact .failed _

/-- The operator that is read begins with the rune that stands here. -/
theorem goes_operator {arity : Arity} (hm : s.mode ≠ .letName)
    (hlet : s.mode = .statementHead → a.word ≠ Keyword.letWord.spelling)
    (after : ∀ op : Operator, op.arity = arity → a.Stands op.spelling →
      s.after (.operator op) = some (s.goto .operand)) : (s.operator a arity).Goes s a := by
  unfold operator
  split
  · split
    · rename_i op hop
      obtain ⟨hspelling, harity⟩ := Operator.lookup_eq_ok_iff.mp hop
      have hstands := a.stands_longest arity
      rw [← hspelling] at hstands
      exact .single (after op harity hstands) (by simp [Spot.token]) (fun hs _ => hlet hs)
        fun hs => (hm hs).elim
    · exact .failed _
  · exact .failed _

theorem goes_closing (hm : s.mode ≠ .letName)
    (hlet : s.mode = .statementHead → a.word ≠ Keyword.letWord.spelling)
    (after : s.after .closeParen = s.close) : (s.closing a).Goes s a := by
  unfold closing
  split
  · rename_i next hclose
    exact .single (after.trans hclose) (by simp [Spot.token]) (fun hs _ => hlet hs)
      fun hs => (hm hs).elim
  · exact .failed _

theorem goes_operand (h : s.awaits = true)
    (hlet : s.mode = .statementHead → a.word ≠ Keyword.letWord.spelling) :
    (s.operand a).Goes s a := by
  have hm := not_letName_of_awaits h
  unfold operand
  split
  · exact .ended (mayEnd_of_awaits h)
  rename_i r hr
  split
  · exact goes_begun h hlet (by decide) rfl (by simp)
  split
  · exact goes_closing hm hlet (after_of_awaits h (by decide))
  split
  · exact goes_name h hlet
  rename_i hname
  split
  · refine goes_number h hlet ?_
    rw [hr]
    exact Bool.eq_false_iff.mpr hname
  split
  · exact goes_quoted h hlet (.inl rfl)
  split
  · exact goes_quoted h hlet (.inr rfl)
  split
  · apply goes_operator hm hlet
    intro op harity _
    have hk : Kind.operator op ≠ .keyword .letWord := nofun
    rw [after_of_awaits h hk]
    cases op <;> first | rfl | cases harity
  · exact .failed _

theorem goes_afterOperand (hm : s.mode = .afterOperand) : (s.afterOperand a).Goes s a := by
  have hname : s.mode ≠ .letName := by simp [hm]
  have hlet : s.mode = .statementHead → a.word ≠ Keyword.letWord.spelling := by simp [hm]
  have hafter : ∀ kind, s.after kind = s.continued kind := fun kind => by simp only [after, hm]
  unfold afterOperand
  split
  · exact .ended (by rw [hm]; rfl)
  rename_i r hr
  split
  · exact goes_closing hname hlet (hafter _)
  split
  · split
    · exact .failed _
    · rename_i hl
      exact .single ((hafter _).trans (if_neg hl)) (by simp [Spot.token]) (fun hs _ => hlet hs)
        fun hs => (hname hs).elim
  rename_i hcomma
  split
  · split
    · rename_i hl
      exact .single ((hafter _).trans (if_pos hl)) (by simp [Spot.token]) (fun hs _ => hlet hs)
        fun hs => (hname hs).elim
    · exact .failed _
  · refine goes_operator hname hlet fun op harity hstands => (hafter _).trans (if_pos ⟨harity, ?_⟩)
    -- A comma has been looked for already.
    rintro rfl
    have hahead := hstands.ahead
    rw [hr] at hahead
    cases hahead
    exact hcomma rfl

theorem goes_statementHead (hm : s.mode = .statementHead) : (s.statementHead a).Goes s a := by
  unfold statementHead
  split
  · refine .single ?_ (by simp [Spot.token]) (fun _ hk => (hk rfl).elim) (by simp [hm])
    simp [after, hm, Spot.token]
  · rename_i hword
    exact goes_operand (by simp [awaits, hm]) fun _ => hword

end Stance

/-- What comes next behind the blanks is allowed by the automaton. -/
theorem goes_phrase (s : Stance) (a : Spot) : (phrase s a).Goes s a.skip := by
  unfold phrase
  split
  · rename_i hm
    exact Stance.goes_statementHead hm
  · rename_i hm
    exact Stance.goes_letName hm
  · rename_i hm
    exact Stance.goes_letType hm
  · rename_i hm
    exact Stance.goes_tupleTypeOpen hm
  · rename_i hm
    exact Stance.goes_tupleTypeNext hm
  · rename_i hm
    exact Stance.goes_letAssign hm
  · rename_i hm
    exact Stance.goes_operand (by simp [Stance.awaits, hm]) (by simp [hm])
  · rename_i hm
    exact Stance.goes_afterOperand hm

/-- What comes next behind the blanks is read as the automaton has it. -/
theorem reads_of_phrase {s next : Stance} {a b : Spot} {ts : List Token}
    (h : phrase s a = .read ts next b) :
    ∃ ws, s.Reads a.skip ws next ∧ ts = a.skip.utter ws ∧ b.skip = a.skip.beyond ws := by
  have account := account_phrase s a
  have goes := goes_phrase s a
  rw [h] at account goes
  cases goes with
  | @single t _ _ after unlettered unmistaken untyped =>
    obtain ⟨kind, w, hw, rfl, hb⟩ : ∃ kind w, a.skip.Lexeme (s.mode = .letName) kind w ∧
        t = a.skip.token kind w ∧ b.skip = (a.skip.past w).skip := by
      cases account with
      | word hw => exact ⟨_, _, hw, rfl, rfl⟩
      | spaced hw => exact ⟨_, _, hw, rfl, Spot.skip_skip _⟩
    refine ⟨[(kind, w)], .word hw ⟨?_, ?_⟩ after ?_, rfl, hb⟩
    · intro hk
      rw [hw.head?_eq]
      exact unlettered hk
    · intro hm hk
      have hword : kind.isWord = true ∧ kind ≠ .keyword .letWord := by
        rcases hk with rfl | rfl <;> exact ⟨rfl, nofun⟩
      rw [← hw.word_eq hword.1]
      exact unmistaken hm hword.2
    · intro hm
      rw [← hw.word_eq (s.isWord_of_after hm after)]
      exact untyped hm
  | typed mode name colon =>
    cases account with
    | pair hv hk hw hnext =>
      cases name
      cases colon
      exact ⟨_, .typed mode (hv.congr (iff_true_intro mode)) hw, rfl, rfl⟩
  | call awaits name opening unmistaken =>
    cases account with
    | pair hv hk hw hnext =>
      cases name
      cases opening
      have hm : ¬ s.mode = .letName := Stance.not_letName_of_awaits awaits
      refine ⟨_, .call awaits (hv.congr (iff_false_intro hm)) ⟨nofun, fun hs _ => ?_⟩ hw, rfl, rfl⟩
      rw [← hv.word_eq rfl]
      exact unmistaken hs

end ExprYard
