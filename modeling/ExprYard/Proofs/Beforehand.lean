import ExprYard.Proofs.Composition
import ExprYard.Proofs.Grammar.Language
import ExprYard.Proofs.Lexer.Bounds
import ExprYard.Proofs.Parser.Backdrop
import ExprYard.Proofs.Parser.Feeding

/-!
# Tokens beforehand or on request

A parser that draws on a lexer and one that is given a list of tokens are fed the same as long as
the lexer meets no problem: only the end of the input comes on top, and a parser makes nothing of
that (`parseTokens_endOfInput`). Where the lexer meets a problem there is no list, and the parser
that draws on it can come to two things. If its tokens up to there are a draft, it takes them and
the report in, and the report is what it comes to. If they are not, it has refused one of them, and
of the tokens that come in the turns of the lexer it refuses none but a closing parenthesis
(`Draft.followed`). That one lies before the place of the problem, as all tokens of the text do.

Offsets tell where a problem is as long as there is one for each rune of the source. Where they start
anew, a token before a problem may stand behind it (`refusal_starts_anew`).
-/

namespace ExprYard

open ExprYard.Parser

/-! ## The end of the input -/

namespace Intake

/-- A parser makes nothing of the end of the input. -/
theorem feed_endOfInput (i : Intake) (p : Position) :
    sink.feed i [Token.endOfInput p] = i := by
  obtain ⟨parser, failure⟩ := i
  cases failure with
  | none => rfl
  | some d => exact Sink.feed_of_not_wants rfl _

end Intake

/-- Tokens with the end of the input behind them come to what they come to on request. -/
theorem parseTokens_endOfInput (l : Lexer) (p : Position) :
    parseTokens (l.tokens.1 ++ [Token.endOfInput p]) = (parseLexer l).1 := by
  unfold parseTokens parseLexer
  rw [Sink.feed_append, Intake.feed_endOfInput, ← Lexer.drain_fst]

/-! ## Reports -/

/-- A parser that has taken all tokens of a text before a report comes to what that says. -/
theorem conclude_of_takes_report {ts : List Token} {p : Parser} (e : Diagnostic)
    (h : Takes ts Parser.empty p) (spoken : ∀ t ∈ ts, t.kind.isSpoken = true) :
    (Intake.sink.feed Intake.start (ts ++ [Lexer.report e])).conclude.2
      = .error ⟨.lexicalError e.problem.message, e.position⟩ := by
  rw [show Intake.start = ⟨Parser.empty, none⟩ from rfl, feed_of_takes h]
  show (Intake.mk (p.push (Lexer.report e)).1 (p.push (Lexer.report e)).2).conclude.2 = _
  rw [push_error rfl]
  have hdiagnostics : p.diagnostics ++ [⟨.lexicalError e.problem.message, e.position⟩]
      = [⟨.lexicalError e.problem.message, e.position⟩] := by
    rw [h.diagnostics spoken]
    rfl
  exact Intake.conclude_of_diagnostics rfl hdiagnostics

/-- A token of a tiling starts before the end of what is tiled. -/
theorem Tiles.start_lt {file : String} {runes : List Char} {ts : List Token}
    (h : Tiles file 0 runes ts) {t : Token} (ht : t ∈ ts) : t.span.start < runes.length := by
  have hlies := h.liesOn [] [] rfl t ht
  have hwithin := hlies.within
  rw [List.nil_append, List.append_nil] at hwithin
  exact Nat.lt_of_lt_of_le hlies.nonempty hwithin

/-- The tokens of a source whose lexer meets a problem: those of some turns, which start before the
problem, and the report of it. -/
theorem Lexer.tokens_of_error {source : List Char} {file : String} {e : Diagnostic}
    (h : (ofRunes source file).tokens.2.error = some e) :
    ∃ ts c, Turns ⟨.statementHead, 0, []⟩ ts c ∧
      (ofRunes source file).tokens.1 = ts ++ [report e] ∧
      ∀ t ∈ ts, t.span.start < e.position.offset := by
  obtain ⟨ts, state, m, n, work, quiet, hts⟩ := tokens_cases source file
  rcases hts with ⟨-, -, hts⟩ | ⟨problem, hts⟩
  · have herror : n.error = none := quiet.error.trans work.error
    rw [hts] at h
    change n.error = some e at h
    rw [herror] at h
    cases h
  · rw [hts] at h
    cases h
    have covers : Covers (ofRunes source file) ts n := by
      simpa using work.covers.trans quiet.covers
    obtain ⟨-, w, -, hoffset, tiles⟩ := covers.tiles
    refine ⟨ts, _, work.turns, congrArg Prod.fst hts, fun t ht => ?_⟩
    show t.span.start < n.offset
    rw [hoffset]
    exact tiles.start_lt ht

/-! ## Both ways -/

/-- What a parser comes to whose lexer hands the tokens `ts` out and meets the problem `e`. -/
inductive Refusal (ts : List Token) (e : Diagnostic) : Diagnostic → Prop where
  /-- It has heard of the problem, and knows the message and the place. -/
  | lexical : Refusal ts e ⟨.lexicalError e.problem.message, e.position⟩
  /-- Before it could, a parenthesis closed where an operator lacks its operand. -/
  | closing {before rest : List Token} {t : Token} {p q : Parser} {d : Diagnostic} {text : String}
      (tokens : ts = before ++ t :: rest) (closes : t.kind = .closeParen)
      (earlier : t.span.start < e.position.offset)
      (taken : pushAll before Parser.empty = (p, before.length, none))
      (refused : p.push t = (q, some d)) (missing : d.problem = .missingOperand text) :
      Refusal ts e d

/-- Where the lexer of a source meets a problem, the parser that draws on it comes to a failure. -/
theorem refusal_of_error {source : List Char} {file : String} {e : Diagnostic}
    (h : (Lexer.ofRunes source file).tokens.2.error = some e) :
    ∃ d, (parseLexer (Lexer.ofRunes source file)).1.2 = .error d ∧
      Refusal (Lexer.ofRunes source file).tokens.1 e d := by
  obtain ⟨ts, c, turns, htokens, hearlier⟩ := Lexer.tokens_of_error h
  have huncomma := turns.uncomma
  rw [parseLexer_ofRunes, htokens]
  cases Draft.followed turns with
  | fits d fits tokens =>
    subst tokens
    exact ⟨_, conclude_of_takes_report e (d.takes huncomma) turns.isSpoken, .lexical⟩
  | amiss d t post amiss tokens =>
    subst tokens
    obtain ⟨r, u, -, hr⟩ := amiss.push
    have htakes := d.takes (uncomma_append.mp huncomma).1
    have hsplit : (d.tokens ++ t :: post) ++ [Lexer.report e]
        = d.tokens ++ t :: (post ++ [Lexer.report e]) := by simp
    rw [hsplit] at htokens ⊢
    have hclosing : t.kind = .closeParen := by
      cases amiss with
      | closing hg ht => exact ht
    have hlt := hearlier t (List.mem_append_right _ List.mem_cons_self)
    exact ⟨_, conclude_of_refused htakes hr,
      .closing rfl hclosing hlt (takes_iff_pushAll.mp htakes) hr rfl⟩

/-- A lexer whose offsets have no bound serves a parser either way. -/
theorem alike_or_refused (source : List Char) (file : String) :
    (∀ ts, tokenize source file = .ok ts →
      parseTokens ts = (parseLexer (Lexer.ofRunes source file)).1) ∧
    ∀ e, tokenize source file = .error e →
      ∃ d, (parseLexer (Lexer.ofRunes source file)).1.2 = .error d ∧
        Refusal (Lexer.ofRunes source file).tokens.1 e d := by
  rcases Lexer.tokenize_cases source file with ⟨-, hok⟩ | ⟨e, herror, hfailed⟩
  · rw [hok]
    refine ⟨fun ts hts => ?_, fun e he => ?_⟩
    · cases hts
      exact parseTokens_endOfInput _ _
    · cases he
  · rw [hfailed]
    refine ⟨fun ts hts => ?_, fun e' he => ?_⟩
    · cases hts
    · cases he
      exact refusal_of_error herror

/-- Tokens may be found beforehand or on request, by either build, of a source that has an offset for
each of its runes. Where it is taken apart without a problem, a parser that is given all its tokens
comes to the same as one that draws them from a lexer: the same trees or the same problem, and it is
left the same. Where the source has a lexical problem, a parser that draws on the lexer fails as
well: either with the message of that problem at its place, or because a parenthesis closed before
that place and an operator lacked its operand there. -/
theorem beforehand_alike {source : List Char} (h : source.length < UInt32.size)
    (build : Lexer.Narrow.Build) (file : String) :
    Lexer.Narrow.tokenize build source file = some (tokenize source file) ∧
    Lexer.Narrow.parseLexer build source file = some (parseLexer (Lexer.ofRunes source file)).1 ∧
    (∀ ts, tokenize source file = .ok ts →
      parseTokens ts = (parseLexer (Lexer.ofRunes source file)).1) ∧
    ∀ e, tokenize source file = .error e →
      ∃ d, (parseLexer (Lexer.ofRunes source file)).1.2 = .error d ∧
        Refusal (Lexer.ofRunes source file).tokens.1 e d :=
  ⟨Lexer.Narrow.tokenize_of_lt h build file, Lexer.Narrow.parseLexer_of_lt h build file,
    alike_or_refused source file⟩

/-- The report of a rune that nothing starts with is what the parser comes to, too. -/
theorem beforehand_alike_rune :
    "1 #".toList.length < UInt32.size ∧ ∃ d p,
      Lexer.Narrow.tokenize .wrapping "1 #".toList "shell"
          = some (.error ⟨.unexpectedRune '#' "an operator position", ⟨2, "shell"⟩⟩) ∧
        Lexer.Narrow.parseLexer .wrapping "1 #".toList "shell" = some (p, .error d) ∧
        Refusal (Lexer.ofRunes "1 #".toList "shell").tokens.1
          ⟨.unexpectedRune '#' "an operator position", ⟨2, "shell"⟩⟩ d := by
  have h : "1 #".toList.length < UInt32.size := by decide
  have herror : tokenize "1 #".toList "shell"
      = .error ⟨.unexpectedRune '#' "an operator position", ⟨2, "shell"⟩⟩ := by
    decide +kernel
  obtain ⟨hfound, hparsed, -, hrefused⟩ := beforehand_alike h .wrapping "shell"
  obtain ⟨d, hd, refusal⟩ := hrefused _ herror
  rw [herror] at hfound
  refine ⟨h, d, _, hfound, hparsed.trans (congrArg some (Prod.ext rfl hd)), refusal⟩

/-- Both problems in one source. A parser that draws on the lexer stops at the parenthesis, so the
lexer never comes to the one that it would meet. -/
example :
    tokenize "(1 + ) #".toList "shell"
        = .error ⟨.unexpectedRune '#' "an operator position", ⟨7, "shell"⟩⟩ ∧
      (parseLexer (Lexer.ofRunes "(1 + ) #".toList "shell")).1.2
        = .error ⟨.missingOperand "+", ⟨3, "shell"⟩⟩ := by
  decide +kernel

/-- Where offsets start anew, the problem of a source may stand before all its tokens. -/
theorem refusal_starts_anew :
    ∃ e d p,
      Lexer.Narrow.tokenize .wrapping
          (List.replicate (UInt32.size - 4) ' ' ++ ['(', '1', '+', ')', '#']) "shell"
        = some (.error e) ∧
      Lexer.Narrow.parseLexer .wrapping
          (List.replicate (UInt32.size - 4) ' ' ++ ['(', '1', '+', ')', '#']) "shell"
        = some (p, .error d) ∧
      ∀ ts, ¬ Refusal ts e d := by
  -- Nothing may look into the blanks, so their number is made a variable.
  obtain ⟨n, hn⟩ : ∃ n, n = UInt32.size - 4 := ⟨UInt32.size - 4, rfl⟩
  have hblank : Rune.isBlank ' ' = true := rfl
  have hproblem : tokenize ['(', '1', '+', ')', '#'] "shell"
      = .error ⟨.unexpectedRune '#' "an operator position", ⟨4, "shell"⟩⟩ := by
    decide +kernel
  have htokens := Lexer.tokens_indented hblank n ['(', '1', '+', ')', '#'] "shell"
  have hfound : tokenize (List.replicate n ' ' ++ ['(', '1', '+', ')', '#']) "shell"
      = .error ⟨.unexpectedRune '#' "an operator position", ⟨4 + n, "shell"⟩⟩ :=
    Lexer.tokenize_indented hblank n _ _ hproblem
  rw [← hn]
  generalize List.replicate n ' ' ++ ['(', '1', '+', ')', '#'] = source at htokens hfound ⊢
  have hparsed : (Intake.sink.feed Intake.start
      (Lexer.ofRunes ['(', '1', '+', ')', '#'] "shell").tokens.1).conclude.2
      = .error ⟨.missingOperand "+", ⟨2, "shell"⟩⟩ := by
    decide +kernel
  have hwrap : Offset.wrap (4 + n) = 0 := by
    rw [hn]
    decide
  have hkept : Lexer.Narrow.tokenize .wrapping source "shell"
      = some (.error ⟨.unexpectedRune '#' "an operator position", ⟨0, "shell"⟩⟩) := by
    rw [Lexer.Narrow.tokenize_eq .wrapping nofun, hfound]
    show some (Except.error (⟨_, ⟨Offset.wrap (4 + n), _⟩⟩ : Diagnostic)) = _
    rw [hwrap]
  have hrefused : (parseTokens
      ((Lexer.ofRunes source "shell").tokens.1.map (Token.relocate .narrow))).2
      = .error ⟨.missingOperand "+", ⟨Offset.wrap (2 + n), "shell"⟩⟩ := by
    unfold parseTokens
    rw [htokens, Intake.conclude_relocate, Intake.conclude_relocate, hparsed]
    rfl
  refine ⟨_, _, _, hkept, (Lexer.Narrow.parseLexer_eq .wrapping nofun "shell").trans
    (congrArg some (Prod.ext rfl hrefused)), ?_⟩
  intro ts refusal
  cases refusal with
  | closing _ _ earlier => exact Nat.not_lt_zero _ earlier

end ExprYard
