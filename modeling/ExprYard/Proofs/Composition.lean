import ExprYard.Proofs.Grammar.Language
import ExprYard.Proofs.Lexer.Continuing
import ExprYard.Proofs.Lexer.Phrasing
import ExprYard.Proofs.Parser.Feeding
import ExprYard.Proofs.Parser.Restarts

/-!
# Statements one after the other

A semicolon leaves nothing open. A lexer that has read one stands at the head of a statement with no
parenthesis counted, and a parser that has taken one has nothing pending and only finished trees
below the statement. So what comes behind a source that ends with a semicolon is read and parsed as
it would be by itself: the same tokens and trees, or the same problem, as many runes further on as
the source has (`statements_compose`).
-/

namespace ExprYard

/-! ## Tokens -/

namespace Lexer

variable {s₁ : List Char} {file : String} {ts : List Token} {t : Token}

/-- Behind a semicolon the tokens of a source are those of what follows, moved. -/
theorem tokens_append (tokens : (ofRunes s₁ file).tokens.1 = ts ++ [t])
    (clean : ∀ u ∈ (ofRunes s₁ file).tokens.1, u.kind ≠ .error)
    (last : t.kind = .keyword .semicolon) (s₂ : List Char) :
    (ofRunes (s₁ ++ s₂) file).tokens.1 = (ofRunes s₁ file).tokens.1 ++
        (ofRunes s₂ file).tokens.1.map (Token.relocate (.forward s₁.length)) ∧
      (ofRunes (s₁ ++ s₂) file).tokens.2.error
        = (ofRunes s₂ file).tokens.2.error.map (Diagnostic.relocate (.forward s₁.length)) := by
  obtain ⟨htokens₁, -⟩ := tokens_eq_reading s₁ file
  obtain ⟨htokens₂, herror₂⟩ := tokens_eq_reading s₂ file
  obtain ⟨htokens, herror⟩ := tokens_eq_reading (s₁ ++ s₂) file
  rw [htokens₁] at clean
  have hread : reading .start (.first s₁ file) = (ts ++ [t], none) :=
    Prod.ext (htokens₁.symm.trans tokens) (problem_of_clean clean)
  have happend := reading_append hread last s₂
  have hspot : (⟨(Spot.first s₁ file).offset + (Spot.first s₁ file).rest.length, s₂,
      (Spot.first s₁ file).file⟩ : Spot) = (Spot.first s₂ file).shift s₁.length := by
    simp [Spot.first, Spot.shift]
  rw [hspot, reading_shift, show (Spot.first s₁ file).more s₂ = .first (s₁ ++ s₂) file from rfl]
    at happend
  rw [htokens, herror, happend, htokens₂, herror₂, tokens]
  exact ⟨rfl, rfl⟩

end Lexer

/-! ## Trees -/

/-- Tokens that are fed one part after the other. -/
theorem Sink.feed_append {σ : Type} (sink : Sink σ) (s : σ) (ts us : List Token) :
    sink.feed s (ts ++ us) = sink.feed (sink.feed s ts) us := by
  induction ts generalizing s with
  | nil => rfl
  | cons t ts ih =>
    by_cases hw : sink.wants s = true
    · simp only [List.cons_append, feed, if_pos hw]
      exact ih (sink.accept s t)
    · rw [feed_of_not_wants (Bool.eq_false_iff.mpr hw),
        feed_of_not_wants (Bool.eq_false_iff.mpr hw),
        feed_of_not_wants (Bool.eq_false_iff.mpr hw)]

namespace Intake

/-- What is left of a parser whose tokens end with a semicolon and are accepted is the backdrop of
their trees. -/
theorem feed_of_semicolon {ts : List Token} {t : Token} (last : t.kind = .keyword .semicolon)
    {trees : List Tree} (h : (sink.feed start (ts ++ [t])).conclude.2 = .ok trees)
    (r : Relocation) : sink.feed start (ts ++ [t]) = start.onto ⟨trees.reverse, [], r⟩ := by
  rw [Sink.feed_append] at h ⊢
  generalize sink.feed start ts = i at h ⊢
  obtain ⟨p, failure⟩ := i
  cases failure with
  | some d =>
    rw [Sink.feed_of_not_wants rfl, conclude_of_failure rfl] at h
    cases h
  | none =>
    have hfeed : sink.feed ⟨p, none⟩ [t] = ⟨p.drain.1, p.drain.2⟩ := by
      show Intake.mk (p.push t).1 (p.push t).2 = _
      rw [Parser.push_semicolon last]
    rw [hfeed] at h ⊢
    cases hd : p.drain with
    | mk q failure =>
    rw [hd] at h
    cases failure with
    | some d => cases h
    | none =>
      rw [(Parser.conclude_of_taken q).2, Parser.finish_of_drain (Parser.drain_of_drain hd)] at h
      have honto := Parser.eq_onto_of_drain hd r
      cases hdiagnostics : q.diagnostics with
      | cons d ds =>
        rw [hdiagnostics] at h
        cases h
      | nil =>
        rw [hdiagnostics] at h honto
        cases h
        rw [Parser.trees, List.reverse_reverse]
        exact congrArg (Intake.mk · none) honto

end Intake

/-- Statements compose. Behind a source without a lexical problem whose last token is a semicolon,
any further source is read as it is by itself, moved by the runes before it: the same tokens, the
report of a problem included, and the same problem. And where the first source is parsed to trees,
what follows is parsed as it is by itself: to its own trees behind those, or to its own problem. -/
theorem statements_compose (s₁ s₂ : List Char) (file : String) (t : Token)
    (clean : ∀ u ∈ (Lexer.ofRunes s₁ file).tokens.1, u.kind ≠ .error)
    (last : (Lexer.ofRunes s₁ file).tokens.1.getLast? = some t)
    (semicolon : t.kind = .keyword .semicolon) :
    (Lexer.ofRunes (s₁ ++ s₂) file).tokens.1 = (Lexer.ofRunes s₁ file).tokens.1 ++
        (Lexer.ofRunes s₂ file).tokens.1.map (Token.relocate (.forward s₁.length)) ∧
      (Lexer.ofRunes (s₁ ++ s₂) file).tokens.2.error
        = (Lexer.ofRunes s₂ file).tokens.2.error.map (Diagnostic.relocate (.forward s₁.length)) ∧
      ∀ trees₁ : List Tree, (parseLexer (Lexer.ofRunes s₁ file)).1.2 = .ok trees₁ →
        (∀ trees₂ : List Tree, (parseLexer (Lexer.ofRunes s₂ file)).1.2 = .ok trees₂ →
          (parseLexer (Lexer.ofRunes (s₁ ++ s₂) file)).1.2
            = .ok (trees₁ ++ trees₂.map (Tree.relocate (.forward s₁.length)))) ∧
        ∀ d : Diagnostic, (parseLexer (Lexer.ofRunes s₂ file)).1.2 = .error d →
          (parseLexer (Lexer.ofRunes (s₁ ++ s₂) file)).1.2
            = .error (d.relocate (.forward s₁.length)) := by
  obtain ⟨ts, hts⟩ := List.getLast?_eq_some_iff.mp last
  obtain ⟨htokens, herror⟩ := Lexer.tokens_append hts clean semicolon s₂
  refine ⟨htokens, herror, fun trees₁ h₁ => ?_⟩
  have hresult : (parseLexer (Lexer.ofRunes (s₁ ++ s₂) file)).1.2
      = Backdrop.result ⟨trees₁.reverse, [], .forward s₁.length⟩
        (parseLexer (Lexer.ofRunes s₂ file)).1.2 := by
    rw [parseLexer_ofRunes, hts] at h₁
    rw [parseLexer_ofRunes, parseLexer_ofRunes, htokens, hts, Sink.feed_append,
      Intake.feed_of_semicolon semicolon h₁ (.forward s₁.length),
      show Relocation.forward s₁.length
        = (⟨trees₁.reverse, [], .forward s₁.length⟩ : Backdrop).relocation from rfl,
      Intake.feed_onto, Intake.conclude_onto _ rfl]
  refine ⟨fun trees₂ h₂ => ?_, fun d h₂ => ?_⟩
  · rw [hresult, h₂]
    show Except.ok (trees₁.reverse.reverse ++ _) = _
    rw [List.reverse_reverse]
  · rw [hresult, h₂]
    rfl

/-- The source `a;b` is parsed to the trees of `a;` and `b`. -/
theorem statements_compose_names :
    (parseLexer (Lexer.ofRunes ['a', ';', 'b'] "shell")).1.2
      = .ok [.leaf ⟨.identifier, "a", 0, 1, "shell"⟩, .leaf ⟨.identifier, "b", 2, 3, "shell"⟩] :=
  ((statements_compose ['a', ';'] ['b'] "shell" ⟨.keyword .semicolon, ";", 1, 2, "shell"⟩
      (by decide +kernel) (by decide +kernel) rfl).2.2
    [.leaf ⟨.identifier, "a", 0, 1, "shell"⟩] (by decide +kernel)).1
    [.leaf ⟨.identifier, "b", 0, 1, "shell"⟩] (by decide +kernel)

end ExprYard
