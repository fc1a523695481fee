import ExprYard.Proofs.Lexer.Phrasing
import ExprYard.Proofs.Lexer.Tiling

/-!
# Tokens are lexemes

The text of a token is one of its kind, and it is whole: no rune that stands behind it in the source
could have gone on with it. `token_isLexeme` says so of all tokens of every source.

A lexer reads a name to its end before it looks for the parenthesis that calls it, and there may be
blanks between them. Only a name that is being declared is not called by one, and such a name stands
behind the word `let`: so what a token is may depend on the tokens before it, but on no others than
the last.
-/

namespace ExprYard

/-- The last of the tokens is the word `let`: a name that follows is declared. -/
def Declares (before : List Token) : Prop :=
  before.getLast?.map Token.kind = some (.keyword .letWord)

theorem declares_concat {before : List Token} {t : Token} :
    Declares (before ++ [t]) ↔ t.kind = .keyword .letWord := by
  simp [Declares]

/-- A token that is read of a source behind the tokens `before` is a whole lexeme of its kind. -/
structure Token.IsLexeme (source : List Char) (file : String) (before : List Token) (t : Token) :
    Prop where
  liesOn : t.LiesOn source file
  /-- It has a text of its kind. -/
  spelt : t.Spelt
  /-- The word `let` and the types are written with names. -/
  isName : t.kind.isWord = true → Lexer.IsName t.text.toList
  /-- What is behind it may stand behind a whole text of its kind. -/
  ends : t.kind.Ends (Declares before) (source.drop t.span.stop)
  /-- A name is a function exactly if the next rune, blanks aside, is an open parenthesis, and it is
  not declared. -/
  called : t.kind = .identifier ∨ t.kind = .function →
    (t.kind = .function ↔ ¬ Declares before ∧ Opens (source.drop t.span.stop))

/-- The tokens are lexemes where they follow the tokens `before`. The report of a problem is none,
as its text is not one of the source. -/
def AllLexemes (source : List Char) (file : String) : List Token → List Token → Prop
  | _, [] => True
  | before, t :: ts =>
    (t.kind ≠ .error → t.IsLexeme source file before) ∧
      AllLexemes source file (before ++ [t]) ts

variable {source : List Char} {file : String}

theorem allLexemes_append {before ts us : List Token} :
    AllLexemes source file before (ts ++ us) ↔
      AllLexemes source file before ts ∧ AllLexemes source file (before ++ ts) us := by
  induction ts generalizing before with
  | nil =>
    rw [List.append_nil]
    exact (and_iff_right trivial).symm
  | cons t ts ih =>
    rw [List.append_cons before t ts]
    exact (and_congr_right fun _ => ih).trans and_assoc.symm

theorem AllLexemes.exists_isLexeme {before ts : List Token} {t : Token}
    (h : AllLexemes source file before ts) (ht : t ∈ ts) (hk : t.kind ≠ .error) :
    ∃ earlier, t.IsLexeme source file earlier := by
  obtain ⟨pre, post, rfl⟩ := List.append_of_mem ht
  exact ⟨before ++ pre, (allLexemes_append.mp h).2.1 hk⟩

namespace Spot

variable {a : Spot} {declared : Prop} {kind : Kind} {w : List Char} {before : List Token}

theorem Lexeme.liesOn (h : a.Lexeme declared kind w) (ha : (first source file).Leads a) :
    (a.token kind w).LiesOn source file where
  file := ha.finish.2
  nonempty := Nat.lt_add_of_pos_right (List.length_pos_iff.mpr h.ne_nil)
  within := by
    have hfinish : a.offset + a.rest.length = 0 + source.length := ha.finish.1
    have hlength := h.stands.length
    show a.offset + w.length ≤ source.length
    omega
  text := by
    show (String.ofList w).toList = (source.drop a.offset).take (a.offset + w.length - a.offset)
    rw [String.toList_ofList, Nat.add_sub_cancel_left, ← ha.rest_eq_drop, h.stands, List.take_left]

/-- A lexeme that stands at a spot of a source is one as a token. -/
theorem Lexeme.isLexeme (h : a.Lexeme (Declares before) kind w) (ha : (first source file).Leads a) :
    (a.token kind w).IsLexeme source file before := by
  have hbehind : (a.past w).rest = source.drop (a.offset + w.length) :=
    (ha.trans h.stands.leads).rest_eq_drop
  have hends := h.ends
  rw [hbehind] at hends
  exact ⟨h.liesOn ha, h.spelt, h.spelt.isName, hends, hends.called⟩

end Spot

/-- The tokens of a phrase are lexemes, and they end with `let` where a name is to be declared. -/
theorem Phrase.Account.allLexemes {s next : Stance} {a b : Spot} {ts before : List Token}
    (h : (Phrase.read ts next b).Account s a) (ha : (Spot.first source file).Leads a)
    (hs : s.mode = .letName ↔ Declares before) :
    AllLexemes source file before ts ∧ (next.mode = .letName ↔ Declares (before ++ ts)) := by
  cases h with
  | word hw hnext =>
    refine ⟨⟨fun _ => (hw.congr hs).isLexeme ha, trivial⟩, ?_⟩
    rw [declares_concat]
    exact hnext
  | spaced hw hnext =>
    refine ⟨⟨fun _ => (hw.congr hs).isLexeme ha, trivial⟩, ?_⟩
    rw [declares_concat]
    exact hnext
  | @pair k l v w _ hv hk hw hnext =>
    have hb := (ha.trans hv.stands.leads).trans (Spot.leads_skip _)
    have hundeclared : False ↔ Declares (before ++ [a.token k v]) :=
      ⟨False.elim, fun hd => hk (declares_concat.mp hd)⟩
    refine ⟨⟨fun _ => (hv.congr hs).isLexeme ha, fun _ => (hw.congr hundeclared).isLexeme hb,
      trivial⟩, ?_⟩
    rw [List.append_cons, declares_concat]
    exact hnext

/-- All tokens that are read from a spot of a source on are lexemes. That a name is to be declared
is known to the stance, and it can be seen in the tokens before it. -/
theorem allLexemes_reading (s : Stance) (a : Spot) (before : List Token)
    (ha : (Spot.first source file).Leads a) (hs : s.mode = .letName ↔ Declares before) :
    AllLexemes source file before (reading s a).1 := by
  cases hp : phrase s a with
  | ended =>
    rw [reading_of_ended hp]
    trivial
  | failed d =>
    rw [reading_of_failed hp]
    exact ⟨fun h => (h rfl).elim, trivial⟩
  | read ts next b =>
    have account := account_phrase s a
    rw [hp] at account
    obtain ⟨hts, hnext⟩ := account.allLexemes (ha.trans a.leads_skip) hs
    rw [reading_of_read hp]
    have hlt := length_lt_of_phrase hp
    exact allLexemes_append.mpr
      ⟨hts, allLexemes_reading next b (before ++ ts) (ha.trans (leads_of_phrase hp)) hnext⟩
termination_by a.rest.length

/-! ## All tokens of a source -/

theorem allLexemes_tokens (source : List Char) (file : String) :
    AllLexemes source file [] (Lexer.ofRunes source file).tokens.1 := by
  have hstart : Stance.start.mode = .letName ↔ Declares [] := ⟨nofun, nofun⟩
  rw [(Lexer.tokens_eq_reading source file).1]
  exact allLexemes_reading .start (.first source file) [] (Spot.Leads.refl _) hstart

/-- Every token of every source is a whole lexeme, the report of a problem apart: it has the text of
the runes on which it lies, and that is a text of its kind with which no rune behind it goes on. A
name is called exactly where an open parenthesis comes next, blanks aside, and it is not the name of
a declaration. -/
theorem token_isLexeme (source : List Char) (file : String) (before after : List Token) (t : Token)
    (tokens : (Lexer.ofRunes source file).tokens.1 = before ++ t :: after)
    (token : t.kind ≠ .error) : t.IsLexeme source file before := by
  have hall := allLexemes_tokens source file
  rw [tokens] at hall
  exact (allLexemes_append.mp hall).2.1 token

/-- In `let f = g (1)` the name `g` is called, with a blank before the parenthesis. -/
theorem token_isLexeme_called :
    Token.IsLexeme ['l', 'e', 't', ' ', 'f', '=', 'g', ' ', '(', '1', ')'] "shell"
      [⟨.keyword .letWord, "let", 0, 3, "shell"⟩, ⟨.identifier, "f", 4, 5, "shell"⟩,
        ⟨.keyword .assign, "=", 5, 6, "shell"⟩]
      ⟨.function, "g", 6, 7, "shell"⟩ :=
  token_isLexeme _ "shell" _
    [⟨.openParen, "(", 8, 9, "shell"⟩, ⟨.integer, "1", 9, 10, "shell"⟩,
      ⟨.closeParen, ")", 10, 11, "shell"⟩]
    _ (by decide +kernel) (by decide)

end ExprYard
