import ExprYard.Proofs.Lexer.Phrasing
import ExprYard.Proofs.Relocation

/-!
# Reading a text in another place, and with more text behind it

What is read of a text does not depend on the offset at which it starts: the tokens and the problem
are the same ones, moved (`reading_shift`), and blanks before a source do no more than move them
(`Lexer.tokens_indented`). Nor does a phrase depend on what follows, unless it goes
up to the end of the text (`phrase_more`). A statement that ends with `;` leaves nothing open, so a
text that ends so is read first and what follows it is read as a text of its own
(`reading_append`).
-/

namespace ExprYard

/-! ## In another place -/

namespace Spot

/-- The same text, `n` runes further on. -/
def shift (n : Nat) (a : Spot) : Spot :=
  ⟨a.offset + n, a.rest, a.file⟩

variable (n : Nat) (a : Spot) (w : List Char)

theorem ahead_shift : (a.shift n).ahead = a.ahead := rfl

theorem run_shift (p : Char → Bool) : (a.shift n).run p = a.run p := rfl

theorem word_shift : (a.shift n).word = a.word := rfl

theorem rest_shift : (a.shift n).rest = a.rest := rfl

theorem skip_shift : (a.shift n).skip = a.skip.shift n := by
  simp only [skip, shift, Nat.add_right_comm]

theorem past_shift : (a.shift n).past w = (a.past w).shift n := by
  simp only [past, shift, Nat.add_right_comm]

theorem token_shift (kind : Kind) :
    (a.shift n).token kind w = (a.token kind w).relocate (.forward n) := by
  simp only [token, shift, Token.relocate, Relocation.forward, Nat.add_right_comm]

end Spot

/-- What comes next, `n` runes further on. -/
def Phrase.shift (n : Nat) : Phrase → Phrase
  | ended => ended
  | failed d => failed (d.relocate (.forward n))
  | read ts next b => read (ts.map (Token.relocate (.forward n))) next (b.shift n)

namespace Spot

variable (n : Nat) (a : Spot)

theorem reads_shift (kind : Kind) (w : List Char) (next : Stance) :
    (a.shift n).reads kind w next = (a.reads kind w next).shift n := by
  simp only [reads, token_shift, past_shift]
  rfl

theorem fails_shift (problem : Problem) :
    (a.shift n).fails problem = (a.fails problem).shift n := rfl

end Spot

namespace Stance

variable (s : Stance) (n : Nat) (a : Spot)

theorem letName_shift : s.letName (a.shift n) = (s.letName a).shift n := by
  unfold letName
  simp only [Spot.ahead_shift, Spot.word_shift, Spot.past_shift, Spot.skip_shift,
    Spot.token_shift, Spot.fails_shift]
  split
  · split <;> rfl
  · rfl

theorem letType_shift : s.letType (a.shift n) = (s.letType a).shift n := by
  unfold letType
  simp only [Spot.ahead_shift, Spot.word_shift, Spot.reads_shift, Spot.fails_shift]
  split
  · split <;> rfl
  · rfl

theorem tupleTypeOpen_shift : s.tupleTypeOpen (a.shift n) = (s.tupleTypeOpen a).shift n := by
  unfold tupleTypeOpen
  simp only [Spot.ahead_shift, Spot.reads_shift, Spot.fails_shift]
  split <;> rfl

theorem tupleTypeNext_shift : s.tupleTypeNext (a.shift n) = (s.tupleTypeNext a).shift n := by
  unfold tupleTypeNext
  simp only [Spot.ahead_shift, Spot.reads_shift, Spot.fails_shift]
  split
  · rfl
  · split <;> rfl

theorem letAssign_shift : s.letAssign (a.shift n) = (s.letAssign a).shift n := by
  unfold letAssign
  simp only [Spot.ahead_shift, Spot.reads_shift, Spot.fails_shift]
  split <;> rfl

theorem name_shift : s.name (a.shift n) = (s.name a).shift n := by
  unfold name
  simp only [Spot.ahead_shift, Spot.word_shift, Spot.past_shift, Spot.skip_shift,
    Spot.token_shift]
  split <;> rfl

theorem fraction_shift (whole : List Char) :
    s.fraction (a.shift n) whole = (s.fraction a whole).shift n := by
  unfold fraction
  simp only [Spot.ahead_shift, Spot.run_shift, Spot.past_shift, Spot.reads_shift,
    Spot.fails_shift]
  split
  · split <;> rfl
  · rfl

theorem number_shift : s.number (a.shift n) = (s.number a).shift n := by
  unfold number
  simp only [Spot.ahead_shift, Spot.run_shift, Spot.past_shift, Spot.reads_shift, fraction_shift]
  split <;> rfl

theorem quoted_shift (quote : Char) (body : Char → Bool) (kind : Kind) :
    s.quoted (a.shift n) quote body kind = (s.quoted a quote body kind).shift n := by
  unfold quoted
  simp only [Spot.ahead_shift, Spot.run_shift, Spot.past_shift, Spot.reads_shift,
    Spot.fails_shift]
  split <;> rfl

theorem operator_shift (arity : Arity) :
    s.operator (a.shift n) arity = (s.operator a arity).shift n := by
  unfold operator
  simp only [Spot.ahead_shift, Spot.rest_shift, Spot.reads_shift, Spot.fails_shift]
  split
  · split <;> rfl
  · rfl

theorem closing_shift : s.closing (a.shift n) = (s.closing a).shift n := by
  unfold closing
  simp only [Spot.reads_shift, Spot.fails_shift]
  split <;> rfl

theorem operand_shift : s.operand (a.shift n) = (s.operand a).shift n := by
  unfold operand
  simp only [Spot.ahead_shift, Spot.reads_shift, Spot.fails_shift, closing_shift, name_shift,
    number_shift, quoted_shift, operator_shift]
  split
  · rfl
  · simp only [← apply_ite (Phrase.shift n)]

theorem afterOperand_shift : s.afterOperand (a.shift n) = (s.afterOperand a).shift n := by
  unfold afterOperand
  simp only [Spot.ahead_shift, Spot.reads_shift, Spot.fails_shift, closing_shift, operator_shift]
  split
  · rfl
  · simp only [← apply_ite (Phrase.shift n)]

theorem statementHead_shift : s.statementHead (a.shift n) = (s.statementHead a).shift n := by
  unfold statementHead
  simp only [Spot.word_shift, Spot.reads_shift, operand_shift]
  split <;> rfl

end Stance

/-- A phrase is the same in another place. -/
theorem phrase_shift (s : Stance) (n : Nat) (a : Spot) :
    phrase s (a.shift n) = (phrase s a).shift n := by
  unfold phrase
  simp only [Spot.skip_shift, Stance.statementHead_shift, Stance.letName_shift,
    Stance.letType_shift, Stance.tupleTypeOpen_shift, Stance.tupleTypeNext_shift,
    Stance.letAssign_shift, Stance.operand_shift, Stance.afterOperand_shift]
  split <;> rfl

/-- A text that stands `n` runes further on is read as the same tokens, with the same problem, `n`
runes further on. -/
theorem reading_shift (s : Stance) (n : Nat) (a : Spot) :
    reading s (a.shift n)
      = ((reading s a).1.map (Token.relocate (.forward n)),
        (reading s a).2.map (Diagnostic.relocate (.forward n))) := by
  have hshift := phrase_shift s n a
  cases hp : phrase s a with
  | ended =>
    rw [hp] at hshift
    rw [reading_of_ended hp, reading_of_ended hshift]
    rfl
  | failed d =>
    rw [hp] at hshift
    rw [reading_of_failed hp, reading_of_failed hshift]
    rfl
  | read ts next b =>
    rw [hp] at hshift
    have hlt := length_lt_of_phrase hp
    rw [reading_of_read hp, reading_of_read hshift, reading_shift next n b, List.map_append]
termination_by a.rest.length

/-! ## With more text behind -/

/-- An operator that ends before the end of the text is the same with more behind it. -/
theorem Operator.longest_append {arity : Arity} {w runes x : List Char}
    (h : Operator.longest arity w runes ≠ w ++ runes) :
    Operator.longest arity w (runes ++ x) = Operator.longest arity w runes := by
  induction runes generalizing w with
  | nil => exact (h (List.append_nil w).symm).elim
  | cons r runes ih =>
    unfold Operator.longest at h ⊢
    rw [List.cons_append]
    dsimp only
    split
    · rename_i hr
      rw [if_pos hr] at h
      exact ih (by simpa using h)
    · rfl

namespace Spot

/-- The same spot, with more text behind the rest. -/
def more (x : List Char) (a : Spot) : Spot :=
  { a with rest := a.rest ++ x }

variable {x : List Char} {a : Spot} {w : List Char}

theorem ahead_more (h : a.rest ≠ []) : (a.more x).ahead = a.ahead :=
  List.head?_append_of_ne_nil a.rest h

theorem past_more (h : a.Stands w) : (a.more x).past w = (a.past w).more x := by
  have hlen : w.length ≤ a.rest.length := by
    have := h.length
    omega
  simp only [more, past, List.drop_append_of_le_length hlen]

/-- A run that ends before the end of the text is the same with more behind it. -/
theorem run_more {p : Char → Bool} (h : (a.past (a.run p)).rest ≠ []) :
    (a.more x).run p = a.run p := by
  rw [rest_past_run] at h
  have hsplit := congrArg List.length (List.takeWhile_append_dropWhile (p := p) (l := a.rest))
  have hpos := List.length_pos_iff.mpr h
  rw [List.length_append] at hsplit
  show (a.rest ++ x).takeWhile p = a.rest.takeWhile p
  rw [List.takeWhile_append, if_neg (by omega)]

theorem skip_more (h : a.skip.rest ≠ []) : (a.more x).skip = a.skip.more x := by
  have hrun := run_more (x := x) (a := a) (p := Rune.isBlank) (by rwa [rest_past_run])
  have hrest : (a.rest ++ x).dropWhile Rune.isBlank = a.rest.dropWhile Rune.isBlank ++ x := by
    rw [List.dropWhile_append, if_neg]
    exact fun hn => h (List.isEmpty_iff.mp hn)
  show (⟨a.offset + ((a.more x).run Rune.isBlank).length, _, _⟩ : Spot) = _
  rw [hrun]
  exact congrArg (Spot.mk _ · _) hrest

/-- Where something stands behind blanks, there is some text. -/
theorem rest_ne_nil_of_skip (h : a.skip.rest ≠ []) : a.rest ≠ [] := by
  intro hn
  exact h (by rw [skip, hn]; rfl)

theorem rest_ne_nil_of_ahead {r : Char} (h : a.ahead = some r) : a.rest ≠ [] := by
  intro hn
  rw [ahead, hn] at h
  cases h

end Spot

/-- Whether a problem is one of the rune at its place, whatever follows that. -/
def Problem.isAtRune : Problem → Bool
  | unexpectedRune .. | extraneousParenthesis | misplacedComma | unbalancedStatement => true
  | _ => false

namespace Phrase

/-- What comes next, with more text behind. -/
def more (x : List Char) : Phrase → Phrase
  | ended => ended
  | failed d => failed d
  | read ts next b => read ts next (b.more x)

/-- The end of the text has no part in what comes next. -/
def Settled : Phrase → Prop
  | ended => False
  | failed d => d.problem.isAtRune = true
  | read _ _ b => b.rest ≠ []

end Phrase

theorem Spot.reads_more {x : List Char} {a : Spot} {w : List Char} {kind : Kind} {next : Stance}
    (h : a.Stands w) : (a.more x).reads kind w next = (a.reads kind w next).more x := by
  unfold reads
  rw [past_more h]
  rfl

namespace Stance

variable {s : Stance} {x : List Char} {a : Spot}

/-- The words in which a phrase begins with a name are the same with more text behind. -/
theorem word_more (h : (a.past a.word).skip.rest ≠ []) :
    (a.more x).word = a.word ∧
      ((a.more x).past a.word).skip = (a.past a.word).skip.more x := by
  refine ⟨Spot.run_more (Spot.rest_ne_nil_of_skip h), ?_⟩
  rw [Spot.past_more (w := a.word) (Spot.stands_run a _), Spot.skip_more h]

theorem letName_more (ha : a.rest ≠ []) (h : (s.letName a).Settled) :
    s.letName (a.more x) = (s.letName a).more x := by
  unfold letName at h ⊢
  rw [Spot.ahead_more ha]
  dsimp only at h ⊢
  split at h
  · rename_i hname
    have hgap : (a.past a.word).skip.rest ≠ [] := by
      split at h
      · rename_i hcolon
        exact Spot.rest_ne_nil_of_ahead hcolon
      · exact h
    obtain ⟨hword, hskip⟩ := word_more (x := x) hgap
    rw [if_pos hname, if_pos hname, hword, hskip, Spot.ahead_more hgap]
    split
    · rename_i hcolon
      rw [Spot.past_more (Spot.stands_of_ahead hcolon)]
      rfl
    · rfl
  · rename_i hname
    rw [if_neg hname, if_neg hname]
    rfl

theorem letType_more (ha : a.rest ≠ []) (h : (s.letType a).Settled) :
    s.letType (a.more x) = (s.letType a).more x := by
  unfold letType at h ⊢
  rw [Spot.ahead_more ha]
  split at h
  · rename_i hname
    rw [if_pos hname, if_pos hname]
    split at h
    · rename_i problem hlookup
      rw [TypeWord.error_of_lookup hlookup] at h
      cases h
    · rename_i word hlookup
      have hword : (a.more x).word = a.word := Spot.run_more h
      rw [hword, hlookup]
      exact Spot.reads_more (Spot.stands_run a _)
  · rename_i hname
    rw [if_neg hname, if_neg hname]
    rfl

theorem tupleTypeOpen_more (ha : a.rest ≠ []) :
    s.tupleTypeOpen (a.more x) = (s.tupleTypeOpen a).more x := by
  unfold tupleTypeOpen
  rw [Spot.ahead_more ha]
  split
  · rename_i h
    exact Spot.reads_more (Spot.stands_of_ahead h)
  · rfl

theorem tupleTypeNext_more (ha : a.rest ≠ []) :
    s.tupleTypeNext (a.more x) = (s.tupleTypeNext a).more x := by
  unfold tupleTypeNext
  rw [Spot.ahead_more ha]
  split
  · rename_i h
    exact Spot.reads_more (Spot.stands_of_ahead h)
  split
  · rename_i h
    exact Spot.reads_more (Spot.stands_of_ahead h)
  · rfl

theorem letAssign_more (ha : a.rest ≠ []) :
    s.letAssign (a.more x) = (s.letAssign a).more x := by
  unfold letAssign
  rw [Spot.ahead_more ha]
  split
  · rename_i h
    exact Spot.reads_more (Spot.stands_of_ahead h)
  · rfl

/-- Something stands behind a name that the end of the text has no part in. -/
theorem gap_of_name (h : (s.name a).Settled) : (a.past a.word).skip.rest ≠ [] := by
  unfold name at h
  dsimp only at h
  split at h
  · rename_i hopen
    exact Spot.rest_ne_nil_of_ahead hopen
  · exact h

theorem name_more (h : (s.name a).Settled) : s.name (a.more x) = (s.name a).more x := by
  have hgap := gap_of_name h
  obtain ⟨hword, hskip⟩ := word_more (x := x) hgap
  unfold name
  dsimp only
  rw [hword, hskip, Spot.ahead_more hgap]
  split
  · rename_i hopen
    rw [Spot.past_more (Spot.stands_of_ahead hopen)]
    rfl
  · rfl

theorem fraction_more {whole : List Char} (hw : a.Stands (whole ++ ['.']))
    (h : (s.fraction a whole).Settled) :
    s.fraction (a.more x) whole = (s.fraction a whole).more x := by
  unfold fraction at h ⊢
  dsimp only at h ⊢
  rw [Spot.past_more hw]
  split at h
  · rename_i he
    split at h
    · rename_i hx
      have hrun : ((a.past (whole ++ ['.'])).more x).run Rune.inNumber
          = (a.past (whole ++ ['.'])).run Rune.inNumber :=
        Spot.run_more (Spot.rest_ne_nil_of_ahead he.1)
      have hdigits := (Spot.stands_run (a.past (whole ++ ['.'])) Rune.inNumber).append
        (Spot.stands_of_ahead he.1)
      have hend : (a.past (whole ++ '.' :: (_ ++ 'e' :: _))).rest ≠ [] := h
      rw [hrun, Spot.past_more (Spot.stands_run _ _), Spot.past_more hdigits,
        Spot.ahead_more (Spot.rest_ne_nil_of_ahead he.1), if_pos he, if_pos he,
        Spot.run_more (by simpa [Spot.past_past] using hend), if_pos hx, if_pos hx]
      exact Spot.reads_more (stands_float hw he.1)
    · cases h
  · cases h

theorem quoted_more {quote : Char} {body : Char → Bool} {kind : Kind}
    (ha : a.ahead = some quote) (h : (s.quoted a quote body kind).Settled) :
    s.quoted (a.more x) quote body kind = (s.quoted a quote body kind).more x := by
  have hone := Spot.stands_of_ahead ha
  have hinner : a.Stands (quote :: (a.past [quote]).run body) :=
    hone.append (Spot.stands_run _ body)
  unfold quoted at h ⊢
  dsimp only at h ⊢
  rw [Spot.past_more hone]
  split at h
  · rename_i hq
    have hrest := Spot.rest_ne_nil_of_ahead hq
    have hrun : ((a.past [quote]).more x).run body = (a.past [quote]).run body :=
      Spot.run_more (by rw [Spot.past_past]; exact hrest)
    rw [hrun, Spot.past_more hinner, Spot.ahead_more hrest, if_pos hq, if_pos hq]
    exact Spot.reads_more (hinner.append (Spot.stands_of_ahead hq))
  · cases h

theorem number_more (h : (s.number a).Settled) : s.number (a.more x) = (s.number a).more x := by
  unfold number at h ⊢
  dsimp only at h ⊢
  have hrest : (a.past (a.run Rune.inNumber)).rest ≠ [] := by
    split at h
    · rename_i hpoint
      exact Spot.rest_ne_nil_of_ahead hpoint
    · exact h
  have hwhole := Spot.stands_run a Rune.inNumber
  rw [Spot.run_more hrest, Spot.past_more hwhole, Spot.ahead_more hrest]
  split
  · rename_i hpoint
    rw [if_pos hpoint] at h
    exact fraction_more (hwhole.append (Spot.stands_of_ahead hpoint)) h
  · exact Spot.reads_more hwhole

theorem operator_more {arity : Arity} (ha : a.rest ≠ []) (h : (s.operator a arity).Settled) :
    s.operator (a.more x) arity = (s.operator a arity).more x := by
  have hstands := Spot.stands_longest a arity
  unfold operator at h ⊢
  rw [Spot.ahead_more ha]
  split at h
  · rename_i hrune
    rw [if_pos hrune, if_pos hrune]
    split at h
    · rename_i op hop
      have hlongest : Operator.longest arity [] (a.more x).rest
          = Operator.longest arity [] a.rest := by
        refine Operator.longest_append fun heq => h ?_
        rw [heq, List.nil_append] at hstands
        show (a.past (Operator.longest arity [] a.rest)).rest = []
        rw [heq, List.nil_append]
        exact List.self_eq_append_right.mp hstands
      rw [hlongest, hop]
      exact Spot.reads_more hstands
    · rename_i problem hop
      rw [Operator.error_of_lookup hop] at h
      cases h
  · rename_i hrune
    rw [if_neg hrune, if_neg hrune]
    rfl

theorem closing_more (ha : a.ahead = some ')') :
    s.closing (a.more x) = (s.closing a).more x := by
  unfold closing
  split
  · exact Spot.reads_more (Spot.stands_of_ahead ha)
  · rfl

theorem operand_more (h : (s.operand a).Settled) :
    s.operand (a.more x) = (s.operand a).more x := by
  unfold operand at h ⊢
  split at h
  · cases h
  rename_i r ha
  have hrest := Spot.rest_ne_nil_of_ahead ha
  rw [Spot.ahead_more hrest, ha]
  dsimp only
  split
  · rename_i hr
    exact Spot.reads_more (Spot.stands_of_ahead (hr ▸ ha))
  rename_i hr
  rw [if_neg hr] at h
  split
  · rename_i hr
    exact closing_more (hr ▸ ha)
  rename_i hr
  rw [if_neg hr] at h
  split
  · rename_i hr
    rw [if_pos hr] at h
    exact name_more h
  rename_i hr
  rw [if_neg hr] at h
  split
  · rename_i hr
    rw [if_pos hr] at h
    exact number_more h
  rename_i hr
  rw [if_neg hr] at h
  split
  · rename_i hr
    rw [if_pos hr] at h
    exact quoted_more (hr ▸ ha) h
  rename_i hr
  rw [if_neg hr] at h
  split
  · rename_i hr
    rw [if_pos hr] at h
    exact quoted_more (hr ▸ ha) h
  rename_i hr
  rw [if_neg hr] at h
  split
  · rename_i hr
    rw [if_pos hr] at h
    exact operator_more hrest h
  · rfl

theorem afterOperand_more (h : (s.afterOperand a).Settled) :
    s.afterOperand (a.more x) = (s.afterOperand a).more x := by
  unfold afterOperand at h ⊢
  split at h
  · cases h
  rename_i r ha
  have hrest := Spot.rest_ne_nil_of_ahead ha
  rw [Spot.ahead_more hrest, ha]
  dsimp only
  split
  · rename_i hr
    exact closing_more (hr ▸ ha)
  rename_i hr
  rw [if_neg hr] at h
  split
  · rename_i hr
    split
    · rfl
    · exact Spot.reads_more (Spot.stands_of_ahead (hr ▸ ha))
  rename_i hr
  rw [if_neg hr] at h
  split
  · rename_i hr
    split
    · exact Spot.reads_more (Spot.stands_of_ahead (hr ▸ ha))
    · rfl
  rename_i hr
  rw [if_neg hr] at h
  exact operator_more hrest h

theorem statementHead_more (ha : a.rest ≠ []) (h : (s.statementHead a).Settled) :
    s.statementHead (a.more x) = (s.statementHead a).more x := by
  unfold statementHead at h ⊢
  split at h
  · rename_i hword
    have hmore : (a.more x).word = a.word := Spot.run_more h
    rw [hmore, if_pos hword, if_pos hword]
    exact Spot.reads_more (Spot.stands_run a _)
  · rename_i hword
    -- More text can make a word `let` only where a name goes on to the end of the text.
    have hmore : (a.more x).word ≠ Keyword.letWord.spelling := by
      intro hlet
      have hstands := Spot.stands_run (a.more x) Rune.continuesName
      rw [show (a.more x).run Rune.continuesName = _ from hlet] at hstands
      have hl := hstands.ahead
      rw [Spot.ahead_more ha] at hl
      rw [operand_of_startsName hl (by decide +kernel)] at h
      exact hword ((word_more (gap_of_name h)).1.symm.trans hlet)
    rw [if_neg hword, if_neg hmore]
    exact operand_more h

end Stance

/-- Where nothing stands, the end of the text has a part in what comes next. -/
theorem rest_ne_nil_of_settled {s : Stance} {a : Spot} (h : (phrase s a).Settled) :
    a.skip.rest ≠ [] := by
  intro hn
  have hahead : a.skip.ahead = none := by rw [Spot.ahead, hn]; rfl
  have hword : a.skip.word = [] := by rw [Spot.word, Spot.run, hn]; rfl
  have hlet : ([] : List Char) ≠ Keyword.letWord.spelling := by decide
  unfold phrase at h
  split at h <;>
    simp [Stance.statementHead, Stance.letName, Stance.letType, Stance.tupleTypeOpen,
      Stance.tupleTypeNext, Stance.letAssign, Stance.operand, Stance.afterOperand, hahead, hword,
      hlet, Spot.fails, Spot.report, Lexer.unexpected, Phrase.Settled, Problem.isAtRune] at h

/-- What comes next is the same with more text behind, unless the end of the text has a part in
it. -/
theorem phrase_more {s : Stance} {a : Spot} (x : List Char) (h : (phrase s a).Settled) :
    phrase s (a.more x) = (phrase s a).more x := by
  have hrest := rest_ne_nil_of_settled h
  unfold phrase at h ⊢
  rw [Spot.skip_more hrest]
  cases hm : s.mode <;> rw [hm] at h
  · exact Stance.statementHead_more hrest h
  · exact Stance.letName_more hrest h
  · exact Stance.letType_more hrest h
  · exact Stance.tupleTypeOpen_more hrest
  · exact Stance.tupleTypeNext_more hrest
  · exact Stance.letAssign_more hrest
  · exact Stance.operand_more h
  · exact Stance.afterOperand_more h

/-! ## Behind a semicolon -/

/-- Whether a semicolon is among the tokens that are read next. -/
def Phrase.Closes : Phrase → Prop
  | read ts _ _ => ∃ t ∈ ts, t.kind = .keyword .semicolon
  | _ => False

section

variable {a : Spot} {ts : List Token} {next : Stance}

@[simp] theorem Phrase.closes_read : (Phrase.read ts next a).Closes ↔
    ∃ t ∈ ts, t.kind = .keyword .semicolon := Iff.rfl

@[simp] theorem Phrase.closes_reads {kind : Kind} {w : List Char} :
    (a.reads kind w next).Closes ↔ kind = .keyword .semicolon := by
  simp [Spot.reads, Spot.token]

@[simp] theorem Phrase.not_closes_fails {problem : Problem} : ¬ (a.fails problem).Closes := id

end

namespace Stance

variable {s : Stance} {a : Spot}

theorem not_closes_letName : ¬ (s.letName a).Closes := by
  unfold letName
  dsimp only
  split_ifs <;> simp [Spot.token]

theorem not_closes_letType : ¬ (s.letType a).Closes := by
  unfold letType
  split
  · split <;> simp
  · simp

theorem not_closes_tupleTypeOpen : ¬ (s.tupleTypeOpen a).Closes := by
  unfold tupleTypeOpen
  split <;> simp

theorem not_closes_tupleTypeNext : ¬ (s.tupleTypeNext a).Closes := by
  unfold tupleTypeNext
  split_ifs <;> simp

theorem not_closes_letAssign : ¬ (s.letAssign a).Closes := by
  unfold letAssign
  split <;> simp

theorem not_closes_closing : ¬ (s.closing a).Closes := by
  unfold closing
  split <;> simp

theorem not_closes_operator {arity : Arity} : ¬ (s.operator a arity).Closes := by
  unfold operator
  split
  · split <;> simp
  · simp

theorem not_closes_operand : ¬ (s.operand a).Closes := by
  unfold operand name number fraction quoted
  dsimp only
  split
  · exact id
  · split_ifs <;> simp [not_closes_closing, not_closes_operator, Spot.token]

theorem not_closes_statementHead : ¬ (s.statementHead a).Closes := by
  unfold statementHead
  split
  · simp
  · exact not_closes_operand

/-- Only a semicolon outside of all parentheses is read as one. -/
theorem of_closes_afterOperand (h : (s.afterOperand a).Closes) :
    a.ahead = some ';' ∧ s.isLevel = true := by
  unfold afterOperand at h
  split at h
  · exact h.elim
  rename_i r ha
  split_ifs at h
  · exact (not_closes_closing h).elim
  · exact (Phrase.not_closes_fails h).elim
  · simp at h
  · rename_i hr hl
    exact ⟨hr ▸ ha, hl⟩
  · exact (Phrase.not_closes_fails h).elim
  · exact (not_closes_operator h).elim

theorem goto_statementHead_of_isLevel (h : s.isLevel = true) : s.goto .statementHead = .start := by
  obtain ⟨mode, parens, outer⟩ := s
  simp only [isLevel, Bool.and_eq_true, decide_eq_true_eq, List.isEmpty_iff] at h
  obtain ⟨rfl, rfl⟩ := h
  rfl

end Stance

/-- Behind a semicolon a statement begins as the first one does, and the semicolon is read whatever
follows it. -/
theorem phrase_of_closes {s : Stance} {a : Spot} (h : (phrase s a).Closes) :
    ∃ (t : Token) (b : Spot), phrase s a = .read [t] .start b ∧
      ∀ x, phrase s (a.more x) = .read [t] .start (b.more x) := by
  unfold phrase at h ⊢
  split at h
  · exact (Stance.not_closes_statementHead h).elim
  · exact (Stance.not_closes_letName h).elim
  · exact (Stance.not_closes_letType h).elim
  · exact (Stance.not_closes_tupleTypeOpen h).elim
  · exact (Stance.not_closes_tupleTypeNext h).elim
  · exact (Stance.not_closes_letAssign h).elim
  · exact (Stance.not_closes_operand h).elim
  · rename_i hm
    obtain ⟨ha, hl⟩ := Stance.of_closes_afterOperand h
    have hrest := Spot.rest_ne_nil_of_ahead ha
    have hread : ∀ b : Spot, b.ahead = some ';' → s.afterOperand b
        = .read [b.token (.keyword .semicolon) [';']] .start (b.past [';']) := by
      intro b hb
      unfold Stance.afterOperand
      rw [hb]
      dsimp only
      rw [if_neg (by decide), if_neg (by decide), if_pos rfl, if_pos hl,
        ← Stance.goto_statementHead_of_isLevel hl]
      rfl
    refine ⟨_, _, hread _ ha, fun x => ?_⟩
    have hmore : (a.skip.more x).ahead = some ';' := (Spot.ahead_more hrest).trans ha
    rw [Spot.skip_more hrest, hread _ hmore, Spot.past_more (Spot.stands_of_ahead ha)]
    rfl

/-- What is read depends on what stands behind the blanks. -/
theorem reading_of_skip {s : Stance} {a b : Spot} (h : a.skip = b.skip) :
    reading s a = reading s b := by
  refine reading_of_phrase ?_
  unfold phrase
  rw [h]

/-- Where nothing is read, nothing but blanks stands. -/
theorem rest_of_reading_nil {s : Stance} {a : Spot} (h : reading s a = ([], none)) :
    a.skip.rest = [] := by
  cases hp : phrase s a with
  | ended => exact rest_of_ended hp
  | failed d =>
    rw [reading_of_failed hp] at h
    cases h
  | read ts next b =>
    rw [reading_of_read hp] at h
    obtain ⟨hts, -⟩ := List.append_eq_nil_iff.mp (congrArg Prod.fst h)
    have account := account_phrase s a
    rw [hp, hts] at account
    cases account

/-- Where tokens are read without a problem, something stands. -/
theorem rest_of_reading_ne_nil {s : Stance} {a : Spot} {ts : List Token}
    (h : reading s a = (ts, none)) (hts : ts ≠ []) : a.skip.rest ≠ [] := by
  cases hp : phrase s a with
  | ended =>
    rw [reading_of_ended hp] at h
    cases h
    exact (hts rfl).elim
  | failed d =>
    rw [reading_of_failed hp] at h
    cases h
  | read us next b => exact rest_ne_nil_of_phrase hp

/-- Behind blanks, more text begins where it would begin by itself. -/
theorem Spot.skip_more_of_blank {a : Spot} (h : a.skip.rest = []) (x : List Char) :
    (a.more x).skip = (⟨a.offset + a.rest.length, x, a.file⟩ : Spot).skip := by
  have hblank : ∀ r ∈ a.rest, Rune.isBlank r = true := List.dropWhile_eq_nil_iff.mp h
  unfold skip more
  dsimp only
  rw [List.takeWhile_append_of_pos hblank, List.dropWhile_append_of_pos hblank,
    List.length_append, Nat.add_assoc]

/-- A text that is read up to a semicolon, and whatever follows it, are read one after the other. -/
theorem reading_append {s : Stance} {a : Spot} {ts : List Token} {t : Token}
    (h : reading s a = (ts ++ [t], none)) (ht : t.kind = .keyword .semicolon) (x : List Char) :
    reading s (a.more x)
      = (ts ++ [t] ++ (reading .start ⟨a.offset + a.rest.length, x, a.file⟩).1,
        (reading .start ⟨a.offset + a.rest.length, x, a.file⟩).2) := by
  cases hp : phrase s a with
  | ended =>
    rw [reading_of_ended hp] at h
    simp at h
  | failed d =>
    rw [reading_of_failed hp] at h
    simp at h
  | read us next b =>
    rw [reading_of_read hp, Prod.mk.injEq] at h
    obtain ⟨htokens, herror⟩ := h
    obtain ⟨hend, hfile⟩ := (leads_of_phrase hp).finish
    rcases List.eq_nil_or_concat (reading next b).1 with hnil | ⟨vs, v, hvs⟩
    · -- The semicolon is read now, and behind it there are only blanks.
      have hblank := rest_of_reading_nil (Prod.ext hnil herror)
      rw [hnil, List.append_nil] at htokens
      subst htokens
      have hcloses : (phrase s a).Closes := by
        rw [hp]
        exact ⟨t, by simp, ht⟩
      obtain ⟨u, c, hread, hmore⟩ := phrase_of_closes hcloses
      rw [hp, Phrase.read.injEq] at hread
      obtain ⟨hu, rfl, rfl⟩ := hread
      rw [reading_of_read (hmore x), ← hu, reading_of_skip (b.skip_more_of_blank hblank x), hend,
        hfile]
    · -- The semicolon is read later.
      have hlt := length_lt_of_phrase hp
      rw [List.concat_eq_append] at hvs
      rw [hvs, ← List.append_assoc] at htokens
      obtain ⟨rfl, hv⟩ := List.append_inj' htokens rfl
      cases hv
      have hlater : reading next b = (vs ++ [t], none) := Prod.ext hvs herror
      have hrest := rest_of_reading_ne_nil hlater (by simp)
      have hsettled : (phrase s a).Settled := by
        rw [hp]
        exact Spot.rest_ne_nil_of_skip hrest
      have hmore := phrase_more x hsettled
      rw [hp] at hmore
      rw [reading_of_read hmore, reading_append hlater ht x, hend, hfile]
      simp
termination_by a.rest.length

/-! ## Blanks before a source -/

namespace Lexer

variable {blank : Char} (h : Rune.isBlank blank = true) (n : Nat) (source : List Char)
  (file : String)

include h

theorem skip_indented : (Spot.first (List.replicate n blank ++ source) file).skip
    = ((Spot.first source file).shift n).skip := by
  have hblank : ∀ r ∈ List.replicate n blank, Rune.isBlank r = true := by
    intro r hr
    rw [List.eq_of_mem_replicate hr]
    exact h
  rw [Spot.skip_shift]
  unfold Spot.skip Spot.first Spot.shift
  dsimp only
  rw [List.takeWhile_append_of_pos hblank, List.dropWhile_append_of_pos hblank, List.length_append,
    List.length_replicate, Nat.add_right_comm, Nat.add_assoc]

/-- Blanks before a source move its tokens. -/
theorem tokens_indented : (ofRunes (List.replicate n blank ++ source) file).tokens.1
    = (ofRunes source file).tokens.1.map (Token.relocate (.forward n)) := by
  rw [(tokens_eq_reading _ file).1, (tokens_eq_reading source file).1,
    reading_of_skip (skip_indented h n source file), reading_shift]

/-- They move its problem. -/
theorem error_indented : (ofRunes (List.replicate n blank ++ source) file).tokens.2.error
    = (ofRunes source file).tokens.2.error.map (Diagnostic.relocate (.forward n)) := by
  rw [(tokens_eq_reading _ file).2, (tokens_eq_reading source file).2,
    reading_of_skip (skip_indented h n source file), reading_shift]

/-- What has a problem has it behind blanks as well. -/
theorem tokenize_indented {d : Diagnostic} (hd : tokenize source file = .error d) :
    tokenize (List.replicate n blank ++ source) file = .error (d.relocate (.forward n)) := by
  have herror := error_indented h n source file
  unfold tokenize at hd ⊢
  dsimp only at hd ⊢
  rw [herror]
  cases hproblem : (ofRunes source file).tokens.2.error with
  | none =>
    rw [hproblem] at hd
    cases hd
  | some e =>
    rw [hproblem] at hd
    cases hd
    rfl

end Lexer

end ExprYard
