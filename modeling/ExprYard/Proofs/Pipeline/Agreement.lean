import ExprYard.Pipeline.Parse
import ExprYard.Proofs.Lexer.Requests
import ExprYard.Proofs.Parser.Reports
import ExprYard.Proofs.Pipeline.Rendezvous

/-!
# A source parses alike in a pipeline and in line

The two ways to parse a source differ in when they let the lexer's problem take the place of the
parser's: in line always, and in a pipeline only where the parser knows of a lexical problem. And in
a pipeline the lexer may have met a problem of which the parser, which had failed, never heard. The
results are the same even so. A parser that fails does so over a token of the text, and as long as
such tokens come the lexer that works on request has met no problem; and a parser that takes the
lexer's report in knows of nothing before it. `Attuned` is that invariant.
-/

namespace ExprYard

open Lexer

/-- What a parser has made of the tokens of a lexer so far, and what the lexer has met. -/
inductive Attuned (i : Intake) (l : Lexer) : Prop where
  /-- Neither has anything to complain about. -/
  | clean (clean : Clean l) (failure : i.failure = none) (diagnostics : i.parser.diagnostics = [])
  /-- The parser has refused a token of the text. -/
  | failed {d : Diagnostic} (error : l.error = none) (failure : i.failure = some d)
      (grammar : d.problem.category = .grammar)
  /-- The parser has taken the lexer's report in. -/
  | reported {d : Diagnostic} (gaveUp : GaveUp d [] l) (failure : i.failure = none)
      (diagnostics : i.parser.diagnostics = [⟨.lexicalError d.problem.message, d.position⟩])

/-- A parser that has failed wants no more tokens. -/
theorem not_wants_of_failure {i : Intake} {d : Diagnostic} (h : i.failure = some d) :
    Intake.sink.wants i = false := by
  show i.failure.isNone = false
  rw [h]
  rfl

/-- Taking a token in keeps the two attuned. -/
theorem attuned_accept {i : Intake} {l m : Lexer} {t : Token} (h : Attuned i l)
    (hw : Intake.sink.wants i = true) (hn : l.next = (some t, m)) :
    Attuned (Intake.sink.accept i t) m := by
  cases h with
  | clean clean failure diagnostics =>
    rcases clean.next_some hn with ⟨clean', spoken⟩ | ⟨d, gaveUp, rfl⟩
    · have hinvalid : t.kind ≠ .invalid := by
        intro he
        rw [he] at spoken
        cases spoken
      have keeps := Parser.keeps_push (Kind.ne_error_of_isSpoken spoken) hinvalid i.parser
      cases hf : (i.parser.push t).2 with
      | none => exact .clean clean' hf (keeps.diagnostics.trans diagnostics)
      | some d => exact .failed clean'.error hf (keeps.grammar d hf)
    · have hpush := Parser.push_error (t := report d) rfl i.parser
      refine .reported gaveUp ?_ ?_
      · show (i.parser.push (report d)).2 = none
        rw [hpush]
      · show (i.parser.push (report d)).1.diagnostics = _
        rw [hpush]
        show i.parser.diagnostics ++ [_] = _
        rw [diagnostics]
        rfl
  | failed error failure grammar =>
    rw [not_wants_of_failure failure] at hw
    cases hw
  | reported gaveUp failure diagnostics =>
    rw [gaveUp.next] at hn
    cases hn

/-- Whatever a parser draws from a lexer, the two stay attuned. -/
theorem attuned_drain {i : Intake} {l : Lexer} (h : Attuned i l) :
    Attuned (l.drain Intake.sink i).1 (l.drain Intake.sink i).2 := by
  fun_induction Lexer.drain Intake.sink i l with
  | case1 i l hw m hn =>
    cases h with
    | clean clean failure diagnostics =>
      exact .clean (clean.next_none hn) failure diagnostics
    | failed error failure grammar =>
      rw [not_wants_of_failure failure] at hw
      cases hw
    | reported gaveUp failure diagnostics =>
      rw [gaveUp.next] at hn
      cases hn
      exact .reported gaveUp failure diagnostics
  | case2 i l hw t m hn ih => exact ih (attuned_accept h hw hn)
  | case3 i l hw => exact h

theorem attuned_start (source : List Char) (file : String) :
    Attuned Intake.start (ofRunes source file) :=
  .clean (clean_ofRunes source file) rfl rfl

/-! ## The result -/

/-- A network that is over has the result that its source has in line. -/
theorem Network.conclude_of_over {source : List Char} {file : String} {n : Network Intake}
    (h : Reaches Intake.sink (start source file Intake.start) n) (ho : n.isOver = true) :
    n.conclude = parse source file := by
  obtain ⟨hstate, herror⟩ := over_of_reaches h ho
  have attuned := attuned_drain (attuned_start source file)
  unfold Network.conclude parse parseLexer
  rw [hstate, herror]
  generalize (ofRunes source file).drain Intake.sink Intake.start = drained at attuned
  obtain ⟨i, l⟩ := drained
  dsimp only at attuned ⊢
  cases attuned with
  | clean clean failure diagnostics =>
    have hw : Intake.sink.wants i = true := by
      show i.failure.isNone = true
      rw [failure]
      rfl
    rw [if_pos hw, clean.error]
    cases i.conclude.2 <;> rfl
  | @failed d error failure grammar =>
    rw [Intake.conclude_of_failure failure, error]
    generalize (if Intake.sink.wants i = true then none else l.next.2.error) = met
    cases met with
    | none => rfl
    | some e =>
      -- A problem of the grammar is none that the lexer's may stand for.
      obtain ⟨problem, position⟩ := d
      cases problem <;> first | rfl | cases grammar
  | reported gaveUp failure diagnostics =>
    have hw : Intake.sink.wants i = true := by
      show i.failure.isNone = true
      rw [failure]
      rfl
    rw [if_pos hw, Intake.conclude_of_diagnostics failure diagnostics, gaveUp.error]

/-- However the producer, the lexer and the parser of a source take turns, they do not go on
forever, they are never stuck before all have stopped, and when they have the result is the one
that the source has in line: the same trees or the same problem at the same position. So it is for
the order of turns that a pipeline happens to choose. -/
theorem pipeline_agrees (source : List Char) (file : String) :
    (∀ f : Nat → Network Intake, f 0 = Network.start source file Intake.start →
      ∃ k, ∀ a, (f k).move Intake.sink a ≠ some (f (k + 1))) ∧
    (∀ n, Network.Reaches Intake.sink (Network.start source file Intake.start) n →
      (n.isOver = true ∨ ∃ a m, n.move Intake.sink a = some m) ∧
      (n.isOver = true → n.conclude = parse source file)) ∧
    Pipeline.parse source file = parse source file := by
  have alike : ∀ n, Network.Reaches Intake.sink (Network.start source file Intake.start) n →
      n.isOver = true → n.conclude = parse source file := fun n h => Network.conclude_of_over h
  refine ⟨fun f _ => Network.exists_no_move f, ?_, ?_⟩
  · exact fun n h => ⟨Network.isOver_or_move _ n, alike n h⟩
  obtain ⟨reaches, stuck⟩ :=
    Network.reaches_run Intake.sink (Network.start source file Intake.start)
  refine alike _ reaches ?_
  rcases Network.isOver_or_move Intake.sink _ with ho | ⟨a, m, hm⟩
  · exact ho
  · rw [stuck a] at hm
    cases hm

end ExprYard
