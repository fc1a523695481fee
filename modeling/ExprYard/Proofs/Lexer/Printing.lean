import ExprYard.Proofs.Lexer.Recognizing
import ExprYard.Proofs.Lexer.Spelling
import ExprYard.Proofs.Grammar.Syntax

/-!
# Tokens that are printed and read again

`print` writes the texts of tokens one after the other with a single space between them. A text that
is followed by a space, or by nothing, is a whole word wherever a lexer is ready for its kind, so
reading what was printed gives the tokens back: `Tells` says that of a stretch of tokens, from the
stance before it to the one behind it.

A space ends every word, so most are read wherever the automaton allows them (`tells_word`). Names
are not: a name is called if a parenthesis follows it, and the name of a declaration has a type if a
colon does, so what is printed behind them has a part in it.
-/

namespace ExprYard

/-- The texts of tokens, with a single space between one and the next. -/
def print (ts : List Token) : List Char :=
  [' '].intercalate (ts.map fun t => t.text.toList)

/-- The texts of tokens, with a space before each. -/
def trail (ts : List Token) : List Char :=
  ts.flatMap fun t => ' ' :: t.text.toList

/-- What a token is and how it is written, wherever it stands. -/
def Token.view (t : Token) : Kind × String :=
  (t.kind, t.text)

theorem print_cons (t : Token) (ts : List Token) :
    print (t :: ts) = t.text.toList ++ trail ts := by
  induction ts generalizing t with
  | nil => simp [print, trail]
  | cons u ts ih =>
    have h := ih u
    unfold print at h ⊢
    rw [List.map_cons] at h
    rw [List.map_cons, List.map_cons, List.intercalate_cons_cons, h]
    simp [trail]

/-- Behind the first space of what is printed stands the first token. -/
theorem dropWhile_trail {t : Token} {ts : List Token} (ht : t.Spelt) :
    (trail (t :: ts)).dropWhile Rune.isBlank = t.text.toList ++ trail ts := by
  obtain ⟨r, rest, hw, hr⟩ := Kind.Spells.begins ht
  have hspace : Rune.isBlank ' ' = true := by decide
  have hstops : Stops Rune.isBlank (t.text.toList ++ trail ts) := by
    rw [hw]
    intro c hc
    cases hc
    exact hr.not_blank
  show (' ' :: (t.text.toList ++ trail ts)).dropWhile Rune.isBlank = _
  rw [List.dropWhile_cons_of_pos hspace, hstops.dropWhile]

/-- At the spot, blanks aside, the tokens are printed. -/
def Spot.Shows (a : Spot) (ts : List Token) : Prop :=
  a.skip.rest = (trail ts).dropWhile Rune.isBlank

/-- What follows a printed word: nothing, or a space. -/
def Spaced (x : List Char) : Prop :=
  ∀ r ∈ x.head?, r = ' '

/-- A gap stops what a space does not go on with. -/
theorem Spaced.stops {p : Char → Bool} {x : List Char} (h : Spaced x) (hp : p ' ' = false) :
    Stops p x := by
  intro r hr
  rw [h r hr]
  exact hp

theorem spaced_trail (ts : List Token) : Spaced (trail ts) := by
  cases ts with
  | nil => intro r hr; cases hr
  | cons t ts => intro r hr; cases hr; rfl

namespace Spot

variable {a : Spot} {t : Token} {ts : List Token} {w x : List Char} {p : Char → Bool}

theorem shows_of_rest (h : a.rest = trail ts) : a.Shows ts := by
  unfold Shows skip
  rw [h]

/-- What is printed stands at the start of it. -/
theorem shows_print (ts : List Token) (file : String) : (Spot.first (print ts) file).Shows ts := by
  cases ts with
  | nil => rfl
  | cons t ts =>
    have hspace : Rune.isBlank ' ' = true := by decide
    show (print (t :: ts)).dropWhile Rune.isBlank
      = (' ' :: (t.text.toList ++ trail ts)).dropWhile Rune.isBlank
    rw [print_cons, List.dropWhile_cons_of_pos hspace]

theorem shows_skip : a.skip.Shows ts ↔ a.Shows ts := by
  unfold Shows
  rw [skip_skip]

/-- The first token that is printed stands behind the blanks. -/
theorem rest_of_shows (h : a.Shows (t :: ts)) (ht : t.Spelt) :
    a.skip.rest = t.text.toList ++ trail ts :=
  Eq.trans h (dropWhile_trail ht)

/-- A printed word is whole if it may end at what is printed behind it. -/
theorem lexeme_of_shows {declared : Prop} (h : a.Shows (t :: ts)) (ht : t.Spelt)
    (ends : t.kind.Ends declared (trail ts)) :
    a.skip.Lexeme declared t.kind t.text.toList := by
  have hrest := rest_of_shows h ht
  refine ⟨stands_of_rest hrest, ht, ?_⟩
  rw [past_of_rest hrest]
  exact ends

/-- Behind a printed word is shown what is printed behind it. -/
theorem shows_past (h : a.Shows (t :: ts)) (ht : t.Spelt) :
    (a.skip.past t.text.toList).skip.Shows ts :=
  shows_skip.mpr (shows_of_rest (past_of_rest (rest_of_shows h ht)))

end Spot

/-! ## Stretches of tokens -/

/-- Where a lexer in a stance has the tokens `ts` printed before it, and `us` behind them, it reads
the former and is then in another stance before the latter. -/
def Tells (s : Stance) (ts : List Token) (next : Stance) (us : List Token) : Prop :=
  ∀ a : Spot, a.Shows (ts ++ us) → ∃ (ws : List Token) (b : Spot), b.Shows us ∧
    ws.map Token.view = ts.map Token.view ∧
    reading s a = (ws ++ (reading next b).1, (reading next b).2)

namespace Tells

variable {s next last : Stance} {t : Token} {ts us vs : List Token}

theorem append (h : Tells s ts next (us ++ vs)) (g : Tells next us last vs) :
    Tells s (ts ++ us) last vs := by
  intro a ha
  rw [List.append_assoc] at ha
  obtain ⟨ws, b, hb, hws, hread⟩ := h a ha
  obtain ⟨xs, c, hc, hxs, hread'⟩ := g b hb
  refine ⟨ws ++ xs, c, hc, ?_, ?_⟩
  · rw [List.map_append, List.map_append, hws, hxs]
  · rw [hread, hread', List.append_assoc]

theorem cons (h : Tells s [t] next (us ++ vs)) (g : Tells next us last vs) :
    Tells s (t :: us) last vs :=
  append h g

end Tells

/-- A token as a word. -/
def Token.word (t : Token) : Word :=
  (t.kind, t.text.toList)

/-- What is uttered are the words, wherever they stand. -/
theorem Spot.view_utter (a : Spot) (ws : List Word) :
    (a.utter ws).map Token.view = ws.map fun word => (word.1, String.ofList word.2) := by
  induction ws generalizing a with
  | nil => rfl
  | cons word ws ih => exact congrArg ((word.1, String.ofList word.2) :: ·) (ih _)

theorem Spot.view_utter_word (a : Spot) (ts : List Token) :
    (a.utter (ts.map Token.word)).map Token.view = ts.map Token.view := by
  rw [view_utter, List.map_map]
  exact List.map_congr_left fun t _ => congrArg (t.kind, ·) String.ofList_toList

/-- Behind printed words is what is printed behind them. -/
theorem Spot.shows_beyond {ts us : List Token} (hts : ∀ t ∈ ts, t.Spelt) (a : Spot)
    (h : a.Shows (ts ++ us)) : (a.skip.beyond (ts.map Token.word)).Shows us := by
  induction ts generalizing a with
  | nil => exact shows_skip.mpr h
  | cons t ts ih =>
    obtain ⟨ht, hts⟩ := List.forall_mem_cons.mp hts
    have hshows := ih hts _ (shows_past h ht)
    rw [skip_skip] at hshows
    exact hshows

/-- A phrase that reads the tokens. -/
theorem Tells.of_reads {s next : Stance} {ts us : List Token} (hts : ∀ t ∈ ts, t.Spelt)
    (h : ∀ a : Spot, a.Shows (ts ++ us) → s.Reads a.skip (ts.map Token.word) next) :
    Tells s ts next us := by
  intro a ha
  obtain ⟨b, hphrase, hb⟩ := (h a ha).phrase
  have hshows := Spot.shows_beyond hts a ha
  rw [← hb] at hshows
  exact ⟨_, b, Spot.shows_skip.mp hshows, Spot.view_utter_word _ ts, reading_of_read hphrase⟩

/-- Where nothing is left but blanks, and the text may end, nothing is read. -/
theorem reading_of_shows_nil {s : Stance} {b : Spot} (h : b.Shows [])
    (hs : s.mode.state.mayEnd = true) : reading s b = ([], none) :=
  reading_of_ended (phrase_eq_ended.mpr ⟨hs, h⟩)

/-- A stretch that a source may begin and end with is read back from what is printed of it. -/
theorem Tells.reading_print {ts : List Token} {next : Stance} (h : Tells .start ts next [])
    (hnext : next.mode.state.mayEnd = true) (file : String) :
    (reading .start (.first (print ts) file)).1.map Token.view = ts.map Token.view ∧
      (reading .start (.first (print ts) file)).2 = none := by
  have hshows : (Spot.first (print ts) file).Shows (ts ++ []) := by
    rw [List.append_nil]
    exact Spot.shows_print ts file
  obtain ⟨ws, b, hb, hws, hread⟩ := h _ hshows
  rw [reading_of_shows_nil hb hnext, List.append_nil] at hread
  rw [hread]
  exact ⟨hws, rfl⟩

/-! ## Words that are no names -/

/-- A gap ends a text, unless it is a name, which may be called beyond the gap. -/
theorem Spaced.ends {declared : Prop} {kind : Kind} {x : List Char} (h : Spaced x)
    (hk : kind ≠ .identifier ∧ kind ≠ .function) : kind.Ends declared x := by
  have hname : Stops Rune.continuesName x := h.stops (by decide +kernel)
  have hnumber : Stops Rune.inNumber x := h.stops (by decide +kernel)
  cases kind with
  | identifier => exact (hk.1 rfl).elim
  | function => exact (hk.2 rfl).elim
  | integer => exact ⟨hnumber, fun hp => absurd (h _ hp) (by decide)⟩
  | float => exact hnumber
  | keyword word => cases word <;> first | exact hname | trivial
  | type word => exact hname
  | operator op =>
    intro r hr
    rw [h r hr]
    apply Bool.eq_false_iff.mpr
    intro hbegins
    exact absurd (Operator.inOperator_of_begins hbegins) (by decide)
  | _ => trivial

section

variable {s next : Stance} {kind : Kind} {t o : Token} {us : List Token}

/-- A printed word is read where the automaton allows it. -/
theorem tells_word (hk : t.kind = kind) (ht : t.Spelt) (hn : t.Unlettered)
    (hname : kind ≠ .identifier ∧ kind ≠ .function) (after : s.after kind = some next) :
    Tells s [t] next us := by
  subst hk
  apply Tells.of_reads (List.forall_mem_singleton.mpr ht)
  intro a ha
  refine .word (Spot.lexeme_of_shows ha ht ((spaced_trail us).ends hname))
    ⟨hn, fun _ hk => ?_⟩ after fun hm => ?_
  · exact (hk.elim hname.1 hname.2).elim
  · simp only [Stance.after, hm, if_neg hname.1] at after
    cases after

/-! ## Names -/

/-- What is printed next does not begin with an open parenthesis. -/
def Unopened (us : List Token) : Prop :=
  ∀ u ∈ us.head?, u.Spelt ∧ u.kind ≠ .openParen

/-- A name that no parenthesis is printed behind is not called. -/
theorem Unopened.ends (h : Unopened us) (declared : Prop) :
    Kind.identifier.Ends declared (trail us) := by
  refine ⟨(spaced_trail us).stops (by decide +kernel), ?_⟩
  intro _ hopens
  cases us with
  | nil => cases hopens
  | cons u us =>
    obtain ⟨hspelt, hk⟩ := h u rfl
    obtain ⟨r, rest, hw, hr⟩ := Kind.Spells.begins hspelt
    rw [Opens, dropWhile_trail hspelt, hw] at hopens
    cases hopens
    exact hr.ne_open hk rfl

/-- A name at the head of a statement must not be spelled like the word `let`. -/
theorem fits_name (hk : t.kind = .identifier ∨ t.kind = .function)
    (unmistaken : s.mode = .statementHead → t.text ≠ "let") : s.Fits t.kind t.text.toList := by
  refine ⟨fun hn => ?_, fun hm _ hw => unmistaken hm (String.toList_inj.mp hw)⟩
  rcases hk with hk | hk <;> rw [hk] at hn <;> rcases hn with hn | hn <;> cases hn

/-- A name is read as an operand, unless a parenthesis follows. -/
theorem tells_identifier (hk : t.kind = .identifier) (ht : t.Spelt) (hus : Unopened us)
    (awaits : s.awaits = true) (unmistaken : s.mode = .statementHead → t.text ≠ "let") :
    Tells s [t] (s.goto .afterOperand) us := by
  apply Tells.of_reads (List.forall_mem_singleton.mpr ht)
  intro a ha
  refine .word (Spot.lexeme_of_shows ha ht ?_) (fits_name (.inl hk) unmistaken) ?_ fun hm => ?_
  · rw [hk]
    exact hus.ends _
  · have hlet : Kind.identifier ≠ .keyword .letWord := nofun
    rw [hk, Stance.after_of_awaits awaits hlet]
    rfl
  · exact (Stance.not_letName_of_awaits awaits hm).elim

/-- The open parenthesis is printed behind a name that is called. -/
theorem ends_called (ho : o.kind = .openParen) (hot : o.Spelt) :
    Kind.function.Ends False (trail (o :: us)) := by
  refine ⟨(spaced_trail _).stops (by decide +kernel), id, ?_⟩
  rw [Opens, dropWhile_trail hot, show o.text.toList = ['('] from hot.of_kind ho]
  rfl

/-- A word that is no name stands whole behind a printed word. -/
theorem lexeme_behind_of_shows {a : Spot} (h : a.Shows (t :: o :: us)) (ht : t.Spelt)
    (hot : o.Spelt) (ho : o.kind ≠ .identifier ∧ o.kind ≠ .function) :
    (a.skip.past t.text.toList).skip.Lexeme False o.kind o.text.toList := by
  have hpast : (a.skip.past t.text.toList).skip.skip.Lexeme False o.kind o.text.toList :=
    Spot.lexeme_of_shows (Spot.shows_past h ht) hot ((spaced_trail us).ends ho)
  rwa [Spot.skip_skip] at hpast

/-- A name that a parenthesis follows is called. -/
theorem tells_call (hk : t.kind = .function) (ht : t.Spelt) (ho : o.kind = .openParen)
    (hot : o.Spelt) (awaits : s.awaits = true)
    (unmistaken : s.mode = .statementHead → t.text ≠ "let") :
    Tells s [t, o] ⟨.operand, 0, s.parens :: s.outer⟩ us := by
  apply Tells.of_reads (by simp [ht, hot])
  intro a ha
  have name : a.skip.Lexeme False t.kind t.text.toList :=
    Spot.lexeme_of_shows ha ht (by rw [hk]; exact ends_called ho hot)
  have opening := lexeme_behind_of_shows ha ht hot (by rw [ho]; exact ⟨nofun, nofun⟩)
  have fits := fits_name (.inr hk) unmistaken
  simp only [List.map_cons, List.map_nil, Token.word]
  rw [hk] at name fits ⊢
  rw [ho] at opening ⊢
  exact .call awaits name fits opening

/-- The name of a declaration, with the mark that is printed behind it. -/
theorem lexeme_of_declared {a : Spot} {c : Token} (hk : t.kind = .identifier) (ht : t.Spelt)
    (hct : c.Spelt) (hc : c.kind ≠ .identifier ∧ c.kind ≠ .function)
    (h : a.Shows (t :: c :: us)) :
    a.skip.Lexeme True .identifier t.text.toList ∧
      (a.skip.past t.text.toList).skip.Lexeme False c.kind c.text.toList := by
  have hends : Kind.identifier.Ends True (trail (c :: us)) :=
    ⟨(spaced_trail _).stops (by decide +kernel), fun hn => (hn trivial).elim⟩
  have hbehind := lexeme_behind_of_shows h ht hct hc
  rw [← hk] at hends ⊢
  exact ⟨Spot.lexeme_of_shows h ht hends, hbehind⟩

/-- A name that a colon follows has a type. -/
theorem tells_typed (hk : t.kind = .identifier) (ht : t.Spelt)
    (hc : o.kind = .keyword .typeSeparator) (hct : o.Spelt) (hm : s.mode = .letName) :
    Tells s [t, o] (s.goto .letType) us := by
  apply Tells.of_reads (by simp [ht, hct])
  intro a ha
  obtain ⟨name, colon⟩ := lexeme_of_declared hk ht hct (by rw [hc]; exact ⟨nofun, nofun⟩) ha
  simp only [List.map_cons, List.map_nil, Token.word, hk]
  rw [hc] at colon ⊢
  exact .typed hm name colon

/-- A name that an assignment follows has none. -/
theorem tells_untyped (hk : t.kind = .identifier) (ht : t.Spelt)
    (hc : o.kind = .keyword .assign) (hct : o.Spelt) (hm : s.mode = .letName) :
    Tells s [t] (s.goto .letAssign) (o :: us) := by
  apply Tells.of_reads (List.forall_mem_singleton.mpr ht)
  intro a ha
  obtain ⟨name, assign⟩ := lexeme_of_declared hk ht hct (by rw [hc]; exact ⟨nofun, nofun⟩) ha
  simp only [List.map_cons, List.map_nil, Token.word]
  have fits : s.Fits t.kind t.text.toList :=
    fits_name (.inl hk) fun hs => absurd (hm.symm.trans hs) (by decide)
  rw [hk] at fits ⊢
  refine .word (name.congr (iff_of_true trivial hm)) fits ?_ fun _ => ?_
  · simp [Stance.after, hm]
  · rw [hc] at assign
    obtain hw : o.text.toList = ['='] := assign.spells
    have hstands := assign.stands
    rw [hw] at hstands
    rw [hstands.ahead]
    decide

end

end ExprYard
