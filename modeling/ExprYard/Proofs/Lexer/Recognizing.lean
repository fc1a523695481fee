import ExprYard.Proofs.Lexer.Automaton
import ExprYard.Proofs.Lexer.Fractions

/-!
# Words that stand are read

The automaton allows a word, and the word stands whole at its spot: then it is what comes next. There
is one lemma for each way in which a word can be read, and it asks for no more than a `Spot.Lexeme`,
so it holds of whatever follows the word that does not go on with it. `Stance.Reads.phrase` puts them
together: `phrase` reads exactly what `Stance.Reads` allows.
-/

namespace ExprYard

variable {s next : Stance} {a : Spot} {declared : Prop} {kind : Kind} {w : List Char}

/-! ## Names -/

theorem Spot.Lexeme.startsName (h : a.Lexeme declared kind w) (hk : kind.isWord = true) :
    a.ahead.any Rune.startsName = true := by
  obtain ⟨r, rest, rfl, hr, -⟩ := h.spells.isName hk
  rw [h.stands.ahead]
  exact hr

namespace Stance

/-- A name is read together with the blanks behind it. -/
theorem name_of_lexeme (h : a.Lexeme False .identifier w) :
    s.name a = .read [a.token .identifier w] (s.goto .afterOperand) (a.past w).skip := by
  have hopens : (a.past w).skip.ahead ≠ some '(' := h.ends.2 id
  unfold name
  dsimp only
  rw [h.word_eq rfl, if_neg hopens]

/-- A called name is read together with its parenthesis. -/
theorem name_of_called (h : a.Lexeme False .function w) :
    s.name a = .read [a.token .function w, (a.past w).skip.token .openParen ['(']]
      ⟨.operand, 0, s.parens :: s.outer⟩ ((a.past w).skip.past ['(']) := by
  have hopens : (a.past w).skip.ahead = some '(' := h.ends.2.2
  unfold name
  dsimp only
  rw [h.word_eq rfl, if_pos hopens]

theorem letName_of_untyped (h : a.Lexeme declared .identifier w)
    (untyped : (a.past w).skip.ahead ≠ some ':') :
    s.letName a = .read [a.token .identifier w] (s.goto .letAssign) (a.past w).skip := by
  unfold letName
  dsimp only
  rw [if_pos (h.startsName rfl), h.word_eq rfl, if_neg untyped]

theorem letName_of_typed (h : a.Lexeme declared .identifier w)
    (typed : (a.past w).skip.ahead = some ':') :
    s.letName a = .read
      [a.token .identifier w, (a.past w).skip.token (.keyword .typeSeparator) [':']]
      (s.goto .letType) ((a.past w).skip.past [':']) := by
  unfold letName
  dsimp only
  rw [if_pos (h.startsName rfl), h.word_eq rfl, if_pos typed]

theorem letType_of_lexeme {word : TypeWord} (h : a.Lexeme declared (.type word) w)
    (typed : s.typed (.type word) = some next) : s.letType a = a.reads (.type word) w next := by
  cases typed
  unfold letType
  rw [if_pos (h.startsName rfl), h.word_eq rfl, TypeWord.lookup_eq_ok_iff.mpr h.spells.symm]

/-! ## Numbers -/

theorem number_of_integer (h : a.Lexeme declared .integer w) :
    s.number a = a.reads .integer w (s.goto .afterOperand) := by
  have hnumber : IsNumber w := h.spells
  have hwhole : a.run Rune.inNumber = w := Spot.run_of_rest h.stands hnumber.all h.ends.1
  have hpoint : (a.past w).ahead ≠ some '.' := h.ends.2
  unfold number
  dsimp only
  rw [hwhole, if_neg hpoint]

theorem number_of_float (h : a.Lexeme declared .float w) :
    s.number a = a.reads .float w (s.goto .afterOperand) := by
  obtain ⟨whole, digits, exponent, rfl, hwhole, hdigits, hexponent⟩ := h.spells
  have hstands := h.stands
  have hends : Stops Rune.inNumber (a.past _).rest := h.ends
  unfold Spot.Stands at hstands
  generalize (a.past _).rest = x at hstands hends
  have hrest : a.rest = whole ++ '.' :: (digits ++ 'e' :: (exponent ++ x)) :=
    hstands.trans (by simp)
  rw [number_of_point hrest hwhole.all,
    fraction_of_isFraction hrest ⟨rfl, hdigits, hexponent, hends⟩]

/-! ## Literals between quotes -/

theorem quoted_of_lexeme {quote : Char} {body : Char → Bool} {inner : List Char}
    (h : a.Stands (quote :: (inner ++ [quote]))) (hinner : ∀ r ∈ inner, body r = true)
    (hquote : body quote = false) :
    s.quoted a quote body kind = a.reads kind (quote :: (inner ++ [quote]))
      (s.goto .afterOperand) := by
  unfold Spot.Stands at h
  generalize (a.past _).rest = x at h
  have hrest : a.rest = quote :: inner ++ quote :: x := h.trans (by simp)
  have hbehind : (a.past [quote]).rest = inner ++ quote :: x := Spot.past_of_rest hrest
  have hrun : (a.past [quote]).run body = inner :=
    Spot.run_of_rest hbehind hinner fun r hr => by cases hr; exact hquote
  have hclose : (a.past (quote :: inner)).ahead = some quote :=
    Spot.ahead_of_rest (Spot.past_of_rest hrest)
  unfold quoted
  dsimp only
  rw [hrun, if_pos hclose]

/-! ## Operators -/

end Stance

/-- Where the runes of an operator stand, and what follows does not go on with it, it is the longest
one. -/
theorem Operator.longest_of_spelling {op : Operator} {x : List Char}
    (hx : (Kind.operator op).Ends declared x) (w v : List Char) (h : op.spelling = w ++ v) :
    Operator.longest op.arity w (v ++ x) = op.spelling := by
  induction v generalizing w with
  | nil =>
    rw [List.append_nil] at h
    cases x with
    | nil => exact h.symm
    | cons r x =>
      have hr : Operator.begins (w ++ [r]) op.arity = false := h ▸ hx r rfl
      rw [List.nil_append, longest, hr, Bool.and_false, h]
      rfl
  | cons r v ih =>
    have hprefix : op.spelling = (w ++ [r]) ++ v := by rw [h]; simp
    have hr : Rune.inOperator r = true := Rune.inOperator_iff.mpr ⟨op, by rw [h]; simp⟩
    have hbegins : Operator.begins (w ++ [r]) op.arity = true :=
      Operator.begins_iff.mpr ⟨op, rfl, v, hprefix.symm⟩
    rw [List.cons_append, longest, hr, hbegins]
    exact ih _ hprefix

/-- Only a comma begins like a mark between operands. -/
theorem Operator.exists_first {op : Operator} (hc : op ≠ .comma) :
    ∃ r, op.spelling.head? = some r ∧ r ≠ ')' ∧ r ≠ ',' ∧ r ≠ ';' := by
  cases op <;> first | exact (hc rfl).elim | exact ⟨_, rfl, by decide⟩

namespace Stance

theorem operator_of_lexeme {op : Operator} (h : a.Lexeme declared (.operator op) w) :
    s.operator a op.arity = a.reads (.operator op) w (s.goto .operand) := by
  obtain rfl : w = op.spelling := h.spells
  have hlongest : Operator.longest op.arity [] a.rest = op.spelling := by
    rw [h.stands]
    exact Operator.longest_of_spelling h.ends [] op.spelling rfl
  have hahead : a.ahead.any Rune.inOperator = true := by
    obtain ⟨r, rest, hr, -⟩ := h.spells.begins
    rw [← h.head?_eq, hr]
    exact Rune.inOperator_iff.mpr ⟨op, by rw [hr]; exact List.mem_cons_self⟩
  unfold operator
  rw [if_pos hahead, hlongest, Operator.lookup_eq_ok_iff.mpr ⟨rfl, rfl⟩]

/-! ## Operands -/

/-- An operand that begins like a number, and not like a name, is one. -/
theorem operand_of_number (h : a.Lexeme declared kind w) (hk : kind = .integer ∨ kind = .float)
    (unlettered : a.ahead.any Rune.startsName = false) : s.operand a = s.number a := by
  obtain ⟨r, rest, rfl, hr⟩ := h.spells.begins
  have hd : Rune.isDigit r = true := by rcases hk with rfl | rfl <;> exact hr
  rw [h.stands.ahead] at unlettered
  have hn : Rune.startsName r = false := unlettered
  have hopen : r ≠ '(' := by
    rintro rfl
    exact absurd hd (by decide +kernel)
  have hclose : r ≠ ')' := by
    rintro rfl
    exact absurd hd (by decide +kernel)
  unfold operand
  rw [h.stands.ahead]
  dsimp only
  rw [if_neg hopen, if_neg hclose, if_neg (by rw [hn]; decide), if_pos hd]

/-- The runes that an operand may begin with, but for those of groups, names and numbers. -/
theorem operand_of_mark {r : Char} (hr : a.ahead = some r)
    (hmark : r ≠ '(' ∧ r ≠ ')' ∧ Rune.startsName r = false ∧ Rune.isDigit r = false) :
    s.operand a = if r = '"' then s.quoted a '"' Rune.inString .string
      else if r = '\'' then s.quoted a '\'' Rune.inChar .char
      else if Operator.begins [r] .unary then s.operator a .unary
      else a.fails (.unexpectedRune r "an expression") := by
  obtain ⟨hopen, hclose, hname, hdigit⟩ := hmark
  unfold operand
  rw [hr]
  dsimp only
  rw [if_neg hopen, if_neg hclose, hname, hdigit]
  rfl

/-- A word that an operand begins with is read where it stands. -/
theorem operand_of_lexeme (h : a.Lexeme False kind w) (begun : s.begun kind = some next)
    (unlettered : kind = .integer ∨ kind = .float → a.ahead.any Rune.startsName = false) :
    ∃ b, s.operand a = .read [a.token kind w] next b ∧ b.skip = (a.past w).skip := by
  cases kind with
  | openParen =>
    obtain rfl : w = ['('] := h.spells
    cases begun
    refine ⟨_, ?_, rfl⟩
    unfold operand
    rw [h.stands.ahead]
    rfl
  | closeParen =>
    obtain rfl : w = [')'] := h.spells
    have hclose : s.close = some next := begun
    refine ⟨_, ?_, rfl⟩
    unfold operand closing
    rw [h.stands.ahead, hclose]
    rfl
  | identifier =>
    cases begun
    obtain ⟨r, hr, hs⟩ := (Option.any_eq_true ..).mp (h.startsName rfl)
    rw [operand_of_startsName hr hs]
    exact ⟨_, name_of_lexeme h, Spot.skip_skip _⟩
  | integer =>
    cases begun
    rw [operand_of_number h (.inl rfl) (unlettered (.inl rfl))]
    exact ⟨_, number_of_integer h, rfl⟩
  | float =>
    cases begun
    rw [operand_of_number h (.inr rfl) (unlettered (.inr rfl))]
    exact ⟨_, number_of_float h, rfl⟩
  | string =>
    cases begun
    obtain ⟨inner, rfl, hinner⟩ := h.spells
    rw [operand_of_mark h.stands.ahead (by decide +kernel), if_pos rfl]
    exact ⟨_, quoted_of_lexeme h.stands hinner (by decide), rfl⟩
  | char =>
    cases begun
    obtain ⟨inner, rfl, hinner⟩ := h.spells
    rw [operand_of_mark h.stands.ahead (by decide +kernel), if_neg (by decide), if_pos rfl]
    exact ⟨_, quoted_of_lexeme h.stands hinner (by decide), rfl⟩
  | operator op =>
    cases op with
    | not =>
      cases begun
      obtain rfl : w = ['!'] := h.spells
      rw [operand_of_mark h.stands.ahead (by decide +kernel), if_neg (by decide),
        if_neg (by decide), if_pos (by decide)]
      exact ⟨_, operator_of_lexeme h, rfl⟩
    | _ => cases begun
  | _ => cases begun

/-- A call is read where its name stands. -/
theorem operand_of_called (h : a.Lexeme False .function w) :
    s.operand a = .read [a.token .function w, (a.past w).skip.token .openParen ['(']]
      ⟨.operand, 0, s.parens :: s.outer⟩ ((a.past w).skip.past ['(']) := by
  obtain ⟨r, hr, hs⟩ := (Option.any_eq_true ..).mp (h.startsName rfl)
  rw [operand_of_startsName hr hs, name_of_called h]

/-- Only a name that an operand begins with has an `l` first. -/
theorem ahead_ne_ell (h : a.Lexeme declared kind w) (begun : s.begun kind = some next)
    (hk : kind ≠ .identifier) : a.ahead ≠ some 'l' := by
  intro hahead
  obtain ⟨r, rest, rfl, hr⟩ := h.spells.begins
  rw [h.stands.ahead] at hahead
  cases hahead
  refine hr.ne_ell ?_ rfl
  cases kind with
  | identifier => exact (hk rfl).elim
  | function | type word | keyword word => cases begun
  | _ => rfl

/-! ## Between operands -/

/-- What follows an operand is read where it stands. -/
theorem afterOperand_of_lexeme (h : a.Lexeme declared kind w)
    (continued : s.continued kind = some next) : s.afterOperand a = a.reads kind w next := by
  cases kind with
  | closeParen =>
    obtain rfl : w = [')'] := h.spells
    have hclose : s.close = some next := continued
    unfold afterOperand closing
    rw [h.stands.ahead, hclose]
    rfl
  | keyword word =>
    cases word with
    | comma =>
      obtain rfl : w = [','] := h.spells
      simp only [Stance.continued] at continued
      split at continued
      · cases continued
      · rename_i hl
        cases continued
        unfold afterOperand
        rw [h.stands.ahead]
        dsimp only
        rw [if_neg (by decide), if_pos rfl, if_neg hl]
    | semicolon =>
      obtain rfl : w = [';'] := h.spells
      simp only [Stance.continued] at continued
      split at continued
      · rename_i hl
        cases continued
        unfold afterOperand
        rw [h.stands.ahead]
        dsimp only
        rw [if_neg (by decide), if_neg (by decide), if_pos rfl, if_pos hl]
      · cases continued
    | _ => cases continued
  | operator op =>
    simp only [Stance.continued] at continued
    split at continued
    · rename_i hop
      cases continued
      obtain ⟨r, hr, hclose, hcomma, hsemicolon⟩ := Operator.exists_first hop.2
      have hahead : a.ahead = some r := by
        rw [← h.head?_eq, show w = op.spelling from h.spells, hr]
      have hread := operator_of_lexeme (s := s) h
      rw [hop.1] at hread
      unfold afterOperand
      rw [hahead]
      dsimp only
      rw [if_neg hclose, if_neg hcomma, if_neg hsemicolon, hread]
    · cases continued
  | _ => cases continued

/-! ## Declarations -/

/-- What belongs to the type of a declaration is read where it stands. -/
theorem tupleTypeOpen_of_lexeme (h : a.Lexeme declared .openParen w) :
    s.tupleTypeOpen a = a.reads .openParen w ⟨.letType, s.parens + 1, s.outer⟩ := by
  obtain rfl : w = ['('] := h.spells
  unfold tupleTypeOpen
  rw [if_pos h.stands.ahead]

theorem tupleTypeNext_of_closeParen (h : a.Lexeme declared .closeParen w) :
    s.tupleTypeNext a = a.reads .closeParen w
      ⟨if 0 < s.parens - 1 then .tupleTypeNext else .letAssign, s.parens - 1, s.outer⟩ := by
  obtain rfl : w = [')'] := h.spells
  unfold tupleTypeNext
  rw [if_pos h.stands.ahead]

theorem tupleTypeNext_of_comma (h : a.Lexeme declared (.keyword .comma) w) :
    s.tupleTypeNext a = a.reads (.keyword .comma) w (s.goto .letType) := by
  obtain rfl : w = [','] := h.spells
  unfold tupleTypeNext
  rw [h.stands.ahead, if_neg (by decide), if_pos rfl]

theorem letAssign_of_lexeme (h : a.Lexeme declared (.keyword .assign) w) :
    s.letAssign a = a.reads (.keyword .assign) w (s.goto .operand) := by
  obtain rfl : w = ['='] := h.spells
  unfold letAssign
  rw [if_pos h.stands.ahead]

/-! ## Phrases -/

end Stance

/-- Where an operand may begin, a phrase is one, unless the word `let` stands at the head of a
statement. -/
theorem phrase_of_awaits (h : s.awaits = true)
    (hlet : s.mode = .statementHead → a.skip.word ≠ Keyword.letWord.spelling) :
    phrase s a = s.operand a.skip := by
  unfold Stance.awaits at h
  unfold phrase
  cases hm : s.mode with
  | statementHead => exact if_neg (hlet hm)
  | operand => rfl
  | _ =>
    rw [hm] at h
    cases h

/-- A word that an operand begins with is not taken for the word `let`. -/
theorem Stance.Fits.word_ne_let {a : Spot} (h : s.Fits kind w) (hm : s.mode = .statementHead)
    (lexeme : a.Lexeme declared kind w) (begun : s.begun kind = some next) :
    a.word ≠ Keyword.letWord.spelling := by
  by_cases hk : kind = .identifier
  · rw [lexeme.word_eq (by rw [hk]; rfl)]
    exact h.unmistaken hm (.inl hk)
  · intro hword
    exact Stance.ahead_ne_ell lexeme begun hk (Spot.ahead_of_word_let hword)

/-- The word `let` is read at the head of a statement. -/
theorem phrase_of_letWord (hm : s.mode = .statementHead)
    (lexeme : a.skip.Lexeme declared (.keyword .letWord) w) :
    phrase s a = a.skip.reads (.keyword .letWord) w (s.goto .letName) := by
  obtain rfl : w = Keyword.letWord.spelling := lexeme.spells
  unfold phrase
  rw [hm]
  dsimp only
  unfold Stance.statementHead
  rw [lexeme.word_eq rfl, if_pos rfl]

/-- A word that an operand begins with is read where an operand may begin. -/
theorem phrase_of_begun (h : s.awaits = true) (lexeme : a.skip.Lexeme (s.mode = .letName) kind w)
    (fits : s.Fits kind w) (begun : s.begun kind = some next) :
    ∃ b, phrase s a = .read [a.skip.token kind w] next b ∧ b.skip = (a.skip.past w).skip := by
  rw [phrase_of_awaits h fun hm => fits.word_ne_let hm lexeme begun]
  apply Stance.operand_of_lexeme (lexeme.congr ?_) begun
  · intro hk
    rw [← lexeme.head?_eq]
    exact fits.unlettered hk
  · exact iff_false_intro (Stance.not_letName_of_awaits h)

/-- A single word is read where the automaton allows it. -/
theorem phrase_of_word (lexeme : a.skip.Lexeme (s.mode = .letName) kind w) (fits : s.Fits kind w)
    (after : s.after kind = some next)
    (untyped : s.mode = .letName → (a.skip.past w).skip.ahead ≠ some ':') :
    ∃ b, phrase s a = .read [a.skip.token kind w] next b ∧ b.skip = (a.skip.past w).skip := by
  cases hm : s.mode with
  | statementHead =>
    by_cases hk : kind = .keyword .letWord
    · subst hk
      simp only [Stance.after, hm, if_pos] at after
      cases after
      exact ⟨_, phrase_of_letWord hm lexeme, rfl⟩
    · have hawaits : s.awaits = true := by simp [Stance.awaits, hm]
      rw [Stance.after_of_awaits hawaits hk] at after
      exact phrase_of_begun hawaits lexeme fits after
  | operand =>
    have hawaits : s.awaits = true := by simp [Stance.awaits, hm]
    simp only [Stance.after, hm] at after
    exact phrase_of_begun hawaits lexeme fits after
  | afterOperand =>
    simp only [Stance.after, hm] at after
    refine ⟨_, ?_, rfl⟩
    simp only [phrase, hm]
    exact Stance.afterOperand_of_lexeme lexeme after
  | letName =>
    simp only [Stance.after, hm] at after
    split at after
    · rename_i hk
      subst hk
      cases after
      simp only [phrase, hm]
      exact ⟨_, Stance.letName_of_untyped lexeme (untyped hm), Spot.skip_skip _⟩
    · cases after
  | letType =>
    simp only [Stance.after, hm] at after
    simp only [phrase, hm]
    cases kind with
    | type word => exact ⟨_, Stance.letType_of_lexeme lexeme after, rfl⟩
    | _ => cases after
  | tupleTypeOpen =>
    simp only [Stance.after, hm] at after
    simp only [phrase, hm]
    split at after
    · rename_i hk
      subst hk
      cases after
      exact ⟨_, Stance.tupleTypeOpen_of_lexeme lexeme, rfl⟩
    · cases after
  | tupleTypeNext =>
    simp only [Stance.after, hm] at after
    simp only [phrase, hm]
    split at after
    · rename_i hk
      subst hk
      cases after
      exact ⟨_, Stance.tupleTypeNext_of_closeParen lexeme, rfl⟩
    split at after
    · rename_i hk
      subst hk
      cases after
      exact ⟨_, Stance.tupleTypeNext_of_comma lexeme, rfl⟩
    · cases after
  | letAssign =>
    simp only [Stance.after, hm] at after
    simp only [phrase, hm]
    split at after
    · rename_i hk
      subst hk
      cases after
      exact ⟨_, Stance.letAssign_of_lexeme lexeme, rfl⟩
    · cases after

/-- Whatever the automaton allows is read where it stands. -/
theorem Stance.Reads.phrase {ws : List Word} (h : s.Reads a.skip ws next) :
    ∃ b, ExprYard.phrase s a = .read (a.skip.utter ws) next b ∧ b.skip = a.skip.beyond ws := by
  cases h with
  | word lexeme fits after untyped => exact phrase_of_word lexeme fits after untyped
  | typed mode name colon =>
    obtain rfl := colon.spells
    refine ⟨_, ?_, rfl⟩
    unfold ExprYard.phrase
    rw [mode]
    exact letName_of_typed name colon.stands.ahead
  | call awaits name fits opening =>
    obtain rfl := opening.spells
    refine ⟨_, ?_, rfl⟩
    have hlet : s.mode = .statementHead → a.skip.word ≠ Keyword.letWord.spelling := by
      intro hm
      rw [name.word_eq rfl]
      exact fits.unmistaken hm (.inr rfl)
    rw [phrase_of_awaits awaits hlet]
    exact operand_of_called name

/-- Nothing comes next exactly where the text is over and may be. -/
theorem phrase_eq_ended : phrase s a = .ended ↔ s.mode.state.mayEnd = true ∧ a.skip.rest = [] := by
  constructor
  · intro h
    have goes := goes_phrase s a
    rw [h] at goes
    cases goes with
    | ended may => exact ⟨may, rest_of_ended h⟩
  · rintro ⟨hm, hrest⟩
    have hahead : a.skip.ahead = none := by rw [Spot.ahead, hrest, List.head?_nil]
    rcases Stance.awaits_or_afterOperand hm with hs | hs
    · have hword : a.skip.word ≠ Keyword.letWord.spelling := by
        intro hw
        rw [Spot.ahead_of_word_let hw] at hahead
        cases hahead
      rw [phrase_of_awaits hs fun _ => hword]
      unfold Stance.operand
      rw [hahead]
    · simp only [phrase, hs]
      unfold Stance.afterOperand
      rw [hahead]

end ExprYard
