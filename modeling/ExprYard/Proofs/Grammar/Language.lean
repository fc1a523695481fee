import ExprYard.Proofs.Grammar.Following
import ExprYard.Proofs.Parser.Reports

/-!
# A lexer and a parser accept the grammar

Together they accept a source exactly when its tokens are those of a program, and what they make of
it are the trees of that program. One direction is that a parser takes the tokens of every program
(`Program.takes`). The other follows the lexer: as long as its tokens do not come amiss there is a
draft for them, and what is accepted at the end is a draft that lacks nothing
(`Draft.exists_program`).
-/

namespace ExprYard

open ExprYard.Parser

/-! ## Tokens that are fed to a parser -/

/-- A parser that is fed tokens that it takes. -/
theorem feed_of_takes {ts us : List Token} {p q : Parser} (h : Takes ts p q) :
    Intake.sink.feed ⟨p, none⟩ (ts ++ us) = Intake.sink.feed ⟨q, none⟩ us := by
  induction ts generalizing p with
  | nil =>
    rw [show p = q from h]
    rfl
  | cons t ts ih =>
    obtain ⟨m, hm, hts⟩ := h
    rw [← ih hts]
    show Intake.sink.feed ⟨(p.push t).1, (p.push t).2⟩ (ts ++ us) = _
    rw [hm]

/-- A parser that is fed a token that it refuses comes to that failure. -/
theorem conclude_of_refused {ts us : List Token} {t : Token} {p q m : Parser} {d : Diagnostic}
    (h : Takes ts p q) (hf : q.push t = (m, some d)) :
    (Intake.sink.feed ⟨p, none⟩ (ts ++ t :: us)).conclude.2 = .error d := by
  rw [feed_of_takes h]
  show (Intake.sink.feed ⟨(q.push t).1, (q.push t).2⟩ us).conclude.2 = _
  rw [hf, Sink.feed_of_not_wants rfl]
  exact Intake.conclude_of_failure rfl

/-- A parser whose statement ends comes to the trees before it. -/
theorem conclude_of_drain {p : Parser} {trees : List Tree}
    (h : p.drain = (between trees, none)) :
    (Intake.mk p none).conclude.2 = .ok trees.reverse := by
  unfold Intake.conclude finish
  dsimp only
  rw [h]
  rfl

/-- A parser whose statement cannot end comes to a failure. -/
theorem conclude_of_undrained {p q : Parser} {d : Diagnostic} {trees : List Tree}
    (h : p.drain = (q, some d)) : (Intake.mk p none).conclude.2 ≠ .ok trees := by
  unfold Intake.conclude finish
  dsimp only
  rw [h]
  dsimp only
  split <;> exact fun heq => by cases heq

/-! ## Every program is accepted -/

/-- A parser takes the tokens of a program, and the end of them leaves its trees. -/
theorem Program.takes (program : Program) (h : Uncomma program.tokens) :
    ∃ p, Takes program.tokens Parser.empty p ∧
      p.drain = (between program.trees.reverse, none) := by
  obtain ⟨closed, last⟩ := program
  obtain ⟨hclosed, hlast⟩ := uncomma_append.mp h
  have htakes := Closed.takes closed hclosed []
  rw [List.append_nil] at htakes
  cases last with
  | none =>
    refine ⟨_, Takes.append htakes rfl, ?_⟩
    rw [drain_between]
    simp [Closed.trees, Program.trees, Program.statements, Function.comp_def]
  | some s =>
    obtain ⟨p, hp, hd⟩ := s.takes hlast (Closed.trees closed)
    refine ⟨p, Takes.append htakes hp, ?_⟩
    rw [hd]
    simp [Closed.trees, Program.trees, Program.statements, Function.comp_def]

/-! ## Nothing else is accepted -/

theorem mem_pending_place (place : Place) (lead : Lead) {q : Parser} {m : Marker}
    (h : m ∈ q.pending) : m ∈ (place.parser lead q).pending := by
  cases place with
  | gap g => exact List.mem_append_right _ (List.mem_append_right _ h)
  | list l => exact List.mem_append_right _ (List.mem_append_right _ h)

/-- A draft with an open parenthesis cannot end. -/
theorem Draft.drain_of_frame (closed : Closed) (head : Option LetHead) (f : Frame)
    (fs : List Frame) (place : Place) :
    ∃ r d, (Draft.mk closed (.expression head (f :: fs) place)).parser.drain = (r, some d) := by
  obtain ⟨n, hparen⟩ := paren_mem_within (base (headWord head) closed.trees)
    (f.scope (nestLead (headLead head) fs)) (nestScopes Frame.scope (headLead head) fs)
  exact drain_of_paren (mem_pending_place place (nestLead (headLead head) (f :: fs)) hparen)

/-- A draft that awaits an operand cannot end unless it awaits a statement. -/
theorem Draft.drain_of_gap (closed : Closed) {head : Option LetHead} {g : Gap}
    (h : g ≠ .start ∨ head ≠ none) :
    ∃ r d, (Draft.mk closed (.expression head [] (.gap g))).parser.drain = (r, some d) := by
  have waits : g.bangs ≠ [] ∨ g.stack (headLead head) ≠ [] := by
    by_cases hg : g = .start
    · subst hg
      cases head with
      | none => exact (h.elim (fun hg => hg rfl) fun hhead => hhead rfl).elim
      | some head => exact .inr (List.cons_ne_nil _ _)
    · exact Gap.waits_of_ne_start hg _
  obtain ⟨t, ht⟩ := exists_blamed waits
  obtain ⟨r, hr⟩ := drain_missing (ground_base (headWord head) closed.trees) ht
  exact ⟨r, _, hr⟩

/-- A draft at whose end a statement may end, and that fits a state in which the input may end, is a
program. -/
theorem Draft.exists_program {d : Draft} {c : Control} {p : Parser} (fits : Fits d.current c)
    (hend : c.state.mayEnd = true) (hdrain : d.parser.drain = (p, none)) :
    ∃ program : Program, program.tokens = d.tokens := by
  obtain ⟨closed, current⟩ := d
  have drains : ¬ ∃ r e, (Draft.mk closed current).parser.drain = (r, some e) := by
    rintro ⟨r, e, hr⟩
    rw [hdrain] at hr
    cases hr
  cases fits with
  | initial hs =>
    exact ⟨⟨closed, none⟩, rfl⟩
  | @gap head fs g s p os hs hc rooted =>
    cases fs with
    | nil =>
      by_cases h : g ≠ .start ∨ head ≠ none
      · exact (drains (Draft.drain_of_gap closed h)).elim
      · obtain ⟨rfl, rfl⟩ : g = .start ∧ head = none := by simpa using h
        exact ⟨⟨closed, none⟩, rfl⟩
    | cons f fs => exact (drains (Draft.drain_of_frame closed head f fs _)).elim
  | @list head fs l s p os hs hc rooted =>
    cases fs with
    | nil =>
      cases l with
      | one e =>
        refine ⟨⟨closed, some (Stmt.of head e)⟩, ?_⟩
        show Closed.tokens closed ++ (Stmt.of head e).tokens = _
        rw [Stmt.tokens_of]
        rfl
      | more l comma e => exact rooted.elim
    | cons f fs => exact (drains (Draft.drain_of_frame closed head f fs _)).elim
  | word | target | typeGap | typeWord | typeList => cases hend

open Lexer

/-- What a parser comes to that is fed the tokens of a source. -/
theorem parseLexer_ofRunes (source : List Char) (file : String) :
    (parseLexer (ofRunes source file)).1.2
      = (Intake.sink.feed Intake.start (ofRunes source file).tokens.1).conclude.2 := by
  unfold parseLexer
  rw [← drain_fst]

/-- A source whose tokens end in a report is not accepted. -/
theorem conclude_of_report {ts : List Token} {p : Parser} (d : Diagnostic)
    (h : Takes ts Parser.empty p) (trees : List Tree) :
    (Intake.sink.feed Intake.start (ts ++ [Lexer.report d])).conclude.2 ≠ .ok trees := by
  rw [show Intake.start = ⟨Parser.empty, none⟩ from rfl, feed_of_takes h]
  show (Intake.mk (p.push (Lexer.report d)).1 (p.push (Lexer.report d)).2).conclude.2 ≠ _
  rw [push_error rfl]
  dsimp only
  obtain ⟨first, rest, hds⟩ := List.exists_cons_of_ne_nil (List.append_ne_nil_of_right_ne_nil
    p.diagnostics (List.cons_ne_nil (⟨.lexicalError (Lexer.report d).text,
      (Lexer.report d).position⟩ : Diagnostic) []))
  rw [Intake.conclude_of_diagnostics (d := first) rfl hds]
  intro h
  cases h

/-- A source with a token that comes amiss is not accepted, whatever else follows. -/
theorem conclude_of_amiss {d : Draft} {t : Token} (amiss : d.Amiss t) (h : Uncomma d.tokens)
    (us : List Token) (trees : List Tree) :
    (Intake.sink.feed Intake.start (d.tokens ++ t :: us)).conclude.2 ≠ .ok trees := by
  obtain ⟨r, u, -, hr⟩ := amiss.push
  rw [show Intake.start = ⟨Parser.empty, none⟩ from rfl, conclude_of_refused (d.takes h) hr]
  intro h
  cases h

/-- Where the tokens of a draft are accepted, nothing is lacking at its end. -/
theorem drain_of_conclude {d : Draft} {trees : List Tree} (h : Uncomma d.tokens)
    (hok : (Intake.sink.feed Intake.start d.tokens).conclude.2 = .ok trees) :
    ∃ p, d.parser.drain = (p, none) := by
  rw [show Intake.start = ⟨Parser.empty, none⟩ from rfl, ← List.append_nil d.tokens,
    feed_of_takes (d.takes h)] at hok
  cases hdrain : d.parser.drain with
  | mk p failure =>
    cases failure with
    | none => exact ⟨p, rfl⟩
    | some e => exact (conclude_of_undrained hdrain hok).elim

/-- The tokens of a source that is accepted are those of a program. -/
theorem exists_program_of_ok {source : List Char} {file : String} {trees : List Tree}
    (h : (parseLexer (ofRunes source file)).1.2 = .ok trees) :
    (∀ t ∈ (ofRunes source file).tokens.1, t.kind ≠ .error) ∧
      ∃ program : Program, program.tokens = (ofRunes source file).tokens.1 := by
  obtain ⟨ts, state, m, n, work, quiet, hts⟩ := tokens_cases source file
  have huncomma := work.turns.uncomma
  rw [parseLexer_ofRunes] at h
  rcases hts with ⟨hend, -, hts⟩ | ⟨problem, hts⟩
  · rw [hts] at h ⊢
    refine ⟨fun t ht => Kind.ne_error_of_isSpoken (work.turns.isSpoken t ht), ?_⟩
    cases Draft.followed work.turns with
    | amiss d t post amiss tokens =>
      subst tokens
      exact (conclude_of_amiss amiss (uncomma_append.mp huncomma).1 post trees h).elim
    | fits d fits tokens =>
      subst tokens
      obtain ⟨p, hdrain⟩ := drain_of_conclude huncomma h
      exact Draft.exists_program fits hend hdrain
  · rw [hts] at h
    exfalso
    cases Draft.followed work.turns with
    | amiss d t post amiss tokens =>
      subst tokens
      dsimp only at h
      rw [List.append_assoc] at h
      exact conclude_of_amiss amiss (uncomma_append.mp huncomma).1 _ trees h
    | fits d fits tokens =>
      subst tokens
      exact conclude_of_report _ (d.takes huncomma) trees h

/-- No token of a source is an operator that is written like a comma. -/
theorem uncomma_tokens (source : List Char) (file : String) :
    Uncomma (ofRunes source file).tokens.1 := by
  obtain ⟨ts, state, m, n, work, quiet, hts⟩ := tokens_cases source file
  have huncomma := work.turns.uncomma
  rcases hts with ⟨-, -, hts⟩ | ⟨problem, hts⟩
  · rw [hts]
    exact huncomma
  · rw [hts]
    refine uncomma_append.mpr ⟨huncomma, ?_⟩
    intro t ht he
    rw [List.mem_singleton.mp ht] at he
    cases he

/-- A source whose tokens are those of a program comes to the program's trees. -/
theorem parseLexer_of_program {source : List Char} {file : String} {program : Program}
    (h : program.tokens = (ofRunes source file).tokens.1) :
    (parseLexer (ofRunes source file)).1.2 = .ok program.trees := by
  have huncomma := uncomma_tokens source file
  rw [← h] at huncomma
  obtain ⟨p, hp, hdrain⟩ := program.takes huncomma
  rw [parseLexer_ofRunes, ← h, show Intake.start = ⟨Parser.empty, none⟩ from rfl,
    ← List.append_nil program.tokens, feed_of_takes hp]
  refine (conclude_of_drain hdrain).trans ?_
  rw [List.reverse_reverse]

/-- Parsing the tokens of a lexer succeeds exactly when the lexer meets no problem and its tokens
are those of a program. The trees are then those that the grammar gives to the statements of the
program, one for each and in their order. -/
theorem accepts_iff_program (source : List Char) (file : String) :
    ((∃ trees, (parseLexer (Lexer.ofRunes source file)).1.2 = .ok trees) ↔
      (∀ t ∈ (Lexer.ofRunes source file).tokens.1, t.kind ≠ .error) ∧
      ∃ program : Program, program.tokens = (Lexer.ofRunes source file).tokens.1) ∧
    ∀ program : Program, program.tokens = (Lexer.ofRunes source file).tokens.1 →
      (parseLexer (Lexer.ofRunes source file)).1.2 = .ok program.trees := by
  refine ⟨⟨?_, ?_⟩, fun program h => parseLexer_of_program h⟩
  · rintro ⟨trees, h⟩
    exact exists_program_of_ok h
  · rintro ⟨-, program, h⟩
    exact ⟨program.trees, parseLexer_of_program h⟩

end ExprYard
