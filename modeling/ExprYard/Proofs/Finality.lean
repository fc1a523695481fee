import ExprYard.Proofs.Grammar.Language
import ExprYard.Proofs.Lexer.Continuing
import ExprYard.Proofs.Lexer.Phrasing

/-!
# Problems that more text cannot mend

Some problems are about a rune alone: one that nothing may begin with, a closing parenthesis, a
comma or a semicolon in the wrong place. A lexer that meets one has not come to the end of its text,
neither there nor before, so it meets the same problem behind the same tokens whatever follows
(`reading_more`). Other problems depend on what follows: a number without its fraction, a word that
is no type yet, a literal that is not closed, an assignment sign that may become a comparison.

`rune_problem_final` says so of whole sources, and of what a parser makes of them.
-/

namespace ExprYard

/-- Where a problem at a rune is met further on, something stands. -/
theorem rest_ne_nil_of_isAtRune {s : Stance} {a : Spot} {d : Diagnostic}
    (h : (reading s a).2 = some d) (hd : d.problem.isAtRune = true) : a.rest ≠ [] := by
  refine Spot.rest_ne_nil_of_skip ?_
  cases hp : phrase s a with
  | ended =>
    rw [reading_of_ended hp] at h
    cases h
  | failed e =>
    rw [reading_of_failed hp] at h
    cases h
    refine rest_ne_nil_of_settled (s := s) ?_
    rw [hp]
    exact hd
  | read ts next b => exact rest_ne_nil_of_phrase hp

/-- A text in which a problem is met at a rune is read in the same way with more text behind. -/
theorem reading_more {s : Stance} {a : Spot} {d : Diagnostic} (h : (reading s a).2 = some d)
    (hd : d.problem.isAtRune = true) (x : List Char) : reading s (a.more x) = reading s a := by
  have hmore := phrase_more (s := s) (a := a) x
  cases hp : phrase s a with
  | ended =>
    rw [reading_of_ended hp] at h
    cases h
  | failed e =>
    rw [reading_of_failed hp] at h
    cases h
    rw [hp] at hmore
    rw [reading_of_failed hp, reading_of_failed (hmore hd)]
  | read ts next b =>
    rw [reading_of_read hp] at h
    rw [hp] at hmore
    have hlt := length_lt_of_phrase hp
    -- The problem is met behind this phrase, so the phrase did not go up to the end of the text.
    have hb : b.rest ≠ [] := rest_ne_nil_of_isAtRune h hd
    rw [reading_of_read hp, reading_of_read (hmore hb), reading_more h hd x]
termination_by a.rest.length

/-- A problem at a rune is final. Where the lexing of a source ends with one, any further text
changes nothing: the tokens are the same ones on the same spans, the problem is the same, and so is
what a parser comes to that is fed them. -/
theorem rune_problem_final (source more : List Char) (file : String) (d : Diagnostic)
    (error : (Lexer.ofRunes source file).tokens.2.error = some d)
    (atRune : d.problem.isAtRune = true) :
    (Lexer.ofRunes (source ++ more) file).tokens.1 = (Lexer.ofRunes source file).tokens.1 ∧
      (Lexer.ofRunes (source ++ more) file).tokens.2.error = some d ∧
      tokenize (source ++ more) file = tokenize source file ∧
      (parseLexer (Lexer.ofRunes (source ++ more) file)).1
        = (parseLexer (Lexer.ofRunes source file)).1 := by
  obtain ⟨htokens, herror⟩ := Lexer.tokens_eq_reading source file
  obtain ⟨htokens', herror'⟩ := Lexer.tokens_eq_reading (source ++ more) file
  have hreading : reading .start (.first (source ++ more) file)
      = reading .start (.first source file) := reading_more (herror ▸ error) atRune more
  have hsame : (Lexer.ofRunes (source ++ more) file).tokens.1
      = (Lexer.ofRunes source file).tokens.1 := by rw [htokens', hreading, htokens]
  have hproblem : (Lexer.ofRunes (source ++ more) file).tokens.2.error = some d := by
    rw [herror', hreading, ← herror, error]
  refine ⟨hsame, hproblem, ?_, ?_⟩
  · unfold tokenize
    dsimp only
    rw [hproblem, error]
  · unfold parseLexer
    dsimp only
    rw [Lexer.drain_fst, Lexer.drain_fst, hsame]

/-- In `f(1;` the semicolon stands inside of a call, and it does so with `2) "` behind it. -/
theorem rune_problem_final_insideCall :
    (Lexer.ofRunes ['f', '(', '1', ';', '2', ')', ' ', '"'] "shell").tokens.1
      = [⟨.function, "f", 0, 1, "shell"⟩, ⟨.openParen, "(", 1, 2, "shell"⟩,
        ⟨.integer, "1", 2, 3, "shell"⟩,
        Lexer.report ⟨.unbalancedStatement, 3, "shell"⟩] :=
  (rune_problem_final ['f', '(', '1', ';'] ['2', ')', ' ', '"'] "shell"
    ⟨.unbalancedStatement, 3, "shell"⟩ (by decide +kernel) rfl).1.trans (by decide +kernel)

end ExprYard
