import ExprYard.Proofs.Grammar.Printing

/-!
# Tokens that are lexed again

Whatever a lexer makes of a text keeps to the conditions under which tokens can be printed and read
back (`printable_reading`): the automaton lets no other word through. So the text of a token that a
source may begin with, and end with too, is lexed to that token again, and an operator that needs
operands is found between two names.

There is one exception. A name may be spelled like the word `let` where no statement begins, as in
`f(let)`, and by itself it is that word.
-/

namespace ExprYard

/-! ## What is read can be printed -/

/-- No operator is read that is written like a comma. -/
theorem Stance.ne_comma_of_after {s next : Stance} {kind : Kind} (h : s.after kind = some next) :
    kind ≠ .operator .comma := by
  rintro rfl
  unfold after at h
  split at h <;> cases h

/-- The words that the automaton allows can be printed. -/
theorem Stance.Reads.printable {s next : Stance} {a : Spot} {ws : List Word}
    (h : s.Reads a ws next) : Printable (a.utter ws) := by
  cases h with
  | word lexeme fits after untyped =>
    refine printable_cons.mpr ⟨⟨lexeme.spelt, fun hk => ?_, Stance.ne_comma_of_after after⟩, nofun⟩
    show (String.ofList _).toList.head?.any Rune.startsName = false
    rw [String.toList_ofList]
    exact fits.unlettered hk
  | typed mode name colon =>
    exact printable_cons.mpr ⟨⟨name.spelt, nofun, nofun⟩,
      printable_cons.mpr ⟨⟨colon.spelt, nofun, nofun⟩, nofun⟩⟩
  | call awaits name fits opening =>
    exact printable_cons.mpr ⟨⟨name.spelt, nofun, nofun⟩,
      printable_cons.mpr ⟨⟨opening.spelt, nofun, nofun⟩, nofun⟩⟩

/-- All tokens of a text can be printed, but for the report of a problem. -/
theorem printable_reading (s : Stance) (a : Spot) :
    ∀ t ∈ (reading s a).1, t.kind ≠ .error → t.Printable := by
  refine forall_mem_reading (fun d hk => (hk rfl).elim) (fun h t ht _ => ?_) s a
  obtain ⟨ws, hreads, rfl, -⟩ := reads_of_phrase h
  exact hreads.printable t ht

/-! ## By themselves, and between names -/

/-- The kinds of the tokens that a source may consist of. -/
def Kind.alone : List Kind :=
  [.integer, .float, .string, .char, .identifier, .operator .not]

section

variable {t : Token}

/-- A token of such a kind is read where nothing else is. -/
theorem Token.Printable.tells_alone (h : t.Printable) (hk : t.kind ∈ Kind.alone)
    (hlet : ¬ (t.kind = .identifier ∧ t.text = "let")) :
    ∃ next : Stance, next.mode.state.mayEnd = true ∧ Tells .start [t] next [] := by
  simp only [Kind.alone, List.mem_cons, List.not_mem_nil, or_false] at hk
  rcases hk with hk | hk | hk | hk | hk | hk
  · exact ⟨_, rfl, h.tells hk (by decide) rfl⟩
  · exact ⟨_, rfl, h.tells hk (by decide) rfl⟩
  · exact ⟨_, rfl, h.tells hk (by decide) rfl⟩
  · exact ⟨_, rfl, h.tells hk (by decide) rfl⟩
  · exact ⟨_, rfl, tells_identifier hk h.spelt unopened_nil rfl fun _ ht => hlet ⟨hk, ht⟩⟩
  · exact ⟨_, rfl, h.tells hk (by decide) rfl⟩

/-- What is spelled like the word `let` is read as that word. -/
theorem view_reading_let (file : String) :
    ∃ views, (reading .start (.first Keyword.letWord.spelling file)).1.map Token.view
      = (.keyword .letWord, "let") :: views := by
  have hword : Token.Printable ⟨.keyword .letWord, "let", 0, 3, ""⟩ :=
    ⟨show "let".toList = Keyword.letWord.spelling by decide, nofun, nofun⟩
  have htells : Tells .start [⟨.keyword .letWord, "let", 0, 3, ""⟩] ⟨.letName, 0, []⟩ [] :=
    hword.tells rfl ⟨nofun, nofun⟩ rfl
  have hprint : print [⟨.keyword .letWord, "let", 0, 3, ""⟩] = Keyword.letWord.spelling := by
    decide
  obtain ⟨ws, b, -, hview, hread⟩ := htells _ (Spot.shows_print _ file)
  rw [List.append_nil, hprint] at hread
  refine ⟨(reading ⟨.letName, 0, []⟩ b).1.map Token.view, ?_⟩
  rw [hread, List.map_append, hview]
  rfl

/-- A name of one letter, which nothing calls, is read as a name. -/
theorem tells_letter {s : Stance} {c : Char} {us : List Token} (hs : s.awaits = true)
    (hc : Rune.startsName c = true) (hus : Unopened us) :
    Tells s [⟨.identifier, String.ofList [c], 0, 1, ""⟩] (s.goto .afterOperand) us := by
  refine tells_identifier rfl ⟨c, [], String.toList_ofList, hc, nofun⟩ hus hs ?_
  intro _ hlet
  have hlength := congrArg (fun text => text.toList.length) hlet
  simp at hlength

/-- An operator that takes two operands is read between names. -/
theorem Token.Printable.tells_between {op : Operator} (h : t.Printable)
    (hk : t.kind = .operator op) (ha : op.arity = .binary) :
    Tells .start [⟨.identifier, "a", 0, 1, ""⟩, t, ⟨.identifier, "b", 0, 1, ""⟩]
      ⟨.afterOperand, 0, []⟩ [] := by
  have hopen : t.kind ≠ .openParen := by
    rw [hk]
    exact nofun
  have hcomma : op ≠ .comma := fun hc => h.uncomma (by rw [hk, hc])
  have hafter : (⟨.afterOperand, 0, []⟩ : Stance).after (.operator op)
      = some ⟨.operand, 0, []⟩ := if_pos ⟨ha, hcomma⟩
  have hlast : Tells ⟨.operand, 0, []⟩ [⟨.identifier, "b", 0, 1, ""⟩] ⟨.afterOperand, 0, []⟩ [] :=
    tells_letter (c := 'b') rfl (by decide +kernel) unopened_nil
  exact Tells.cons (tells_letter (c := 'a') rfl (by decide +kernel) (unopened_cons h hopen))
    ((h.tells hk ⟨nofun, nofun⟩ hafter).cons hlast)

end

/-! ## Tokens of sources -/

theorem printable_tokens {source : List Char} {file : String} {t : Token}
    (h : t ∈ (Lexer.ofRunes source file).tokens.1) (hk : t.kind ≠ .error) : t.Printable := by
  rw [(Lexer.tokens_eq_reading source file).1] at h
  exact printable_reading _ _ t h hk

/-- Lexing a token again changes nothing. By itself the text of a literal, of a name or of the
operator with one operand is lexed to that token and no other, without a problem, unless it is a name
that is spelled like the word `let`. The text of an operator with two operands is lexed to that
operator between two names. -/
theorem relexing_stable (source : List Char) (file again : String) (t : Token)
    (token : t ∈ (Lexer.ofRunes source file).tokens.1) :
    (t.kind ∈ Kind.alone →
      ((Lexer.ofRunes t.text.toList again).tokens.1.map Token.view = [t.view] ∧
          (Lexer.ofRunes t.text.toList again).tokens.2.error = none ↔
        ¬ (t.kind = .identifier ∧ t.text = "let"))) ∧
      ∀ op : Operator, t.kind = .operator op → op.arity = .binary →
        (Lexer.ofRunes (['a', ' '] ++ t.text.toList ++ [' ', 'b']) again).tokens.1.map Token.view
            = [(.identifier, "a"), t.view, (.identifier, "b")] ∧
          (Lexer.ofRunes (['a', ' '] ++ t.text.toList ++ [' ', 'b']) again).tokens.2.error
            = none := by
  constructor
  · intro hk
    have hprintable : t.Printable := printable_tokens token fun he => by
      rw [he] at hk
      exact absurd hk (by decide)
    have hprint : print [t] = t.text.toList := (print_cons t []).trans (List.append_nil _)
    obtain ⟨htokens, herror⟩ := Lexer.tokens_eq_reading t.text.toList again
    rw [htokens, herror]
    constructor
    · rintro ⟨hview, -⟩ ⟨hname, hlet⟩
      obtain ⟨views, hviews⟩ := view_reading_let again
      rw [hlet, show "let".toList = Keyword.letWord.spelling by decide, hviews] at hview
      rw [Token.view, hname] at hview
      cases hview
    · intro hlet
      obtain ⟨next, hnext, htells⟩ := hprintable.tells_alone hk hlet
      have hread := htells.reading_print hnext again
      rw [hprint] at hread
      exact hread
  · intro op hk ha
    have hprintable : t.Printable := printable_tokens token (by rw [hk]; exact nofun)
    have hread := (hprintable.tells_between hk ha).reading_print rfl again
    have hprint : print [⟨.identifier, "a", 0, 1, ""⟩, t, ⟨.identifier, "b", 0, 1, ""⟩]
        = ['a', ' '] ++ t.text.toList ++ [' ', 'b'] := by
      rw [print_cons]
      simp [trail]
    obtain ⟨htokens, herror⟩ :=
      Lexer.tokens_eq_reading (['a', ' '] ++ t.text.toList ++ [' ', 'b']) again
    rw [hprint] at hread
    rw [htokens, herror]
    exact hread

/-- In `f(let<2)` there is a name that is not lexed to itself again, an operator between two other
tokens that is, and a number that is by itself. -/
theorem relexing_stable_letArgument :
    (¬ ((Lexer.ofRunes "let".toList "again").tokens.1.map Token.view = [(.identifier, "let")] ∧
        (Lexer.ofRunes "let".toList "again").tokens.2.error = none)) ∧
      (Lexer.ofRunes (['a', ' '] ++ "<".toList ++ [' ', 'b']) "again").tokens.1.map Token.view
        = [(.identifier, "a"), (.operator .lt, "<"), (.identifier, "b")] ∧
      (Lexer.ofRunes "2".toList "again").tokens.1.map Token.view = [(.integer, "2")] := by
  have hlet := relexing_stable ['f', '(', 'l', 'e', 't', '<', '2', ')'] "shell" "again"
    ⟨.identifier, "let", 2, 5, "shell"⟩ (by decide +kernel)
  have hless := relexing_stable ['f', '(', 'l', 'e', 't', '<', '2', ')'] "shell" "again"
    ⟨.operator .lt, "<", 5, 6, "shell"⟩ (by decide +kernel)
  have htwo := relexing_stable ['f', '(', 'l', 'e', 't', '<', '2', ')'] "shell" "again"
    ⟨.integer, "2", 6, 7, "shell"⟩ (by decide +kernel)
  refine ⟨?_, (hless.2 .lt rfl rfl).1, ((htwo.1 (by decide)).mpr (by decide)).1⟩
  intro h
  exact (hlet.1 (by decide)).mp h ⟨rfl, rfl⟩

end ExprYard
