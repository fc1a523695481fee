import ExprYard.Parser.Parse
import ExprYard.Proofs.Parser.Steps

/-!
# What a parser reports

A parser fails over tokens that do not fit together, and never for a lexical problem: such a problem
comes as a token of its own, and is kept for the end. `keeps_push` and `push_error` keep the two
apart for a single token.
-/

namespace ExprYard

namespace Parser

/-- A step that keeps what has been reported, and that may fail only because tokens do not fit
together. -/
structure Keeps (p : Parser) (o : Outcome) : Prop where
  diagnostics : o.1.diagnostics = p.diagnostics
  grammar : ∀ d, o.2 = some d → d.problem.category = .grammar

variable {p q : Parser}

theorem keeps_ok (h : q.diagnostics = p.diagnostics) : Keeps p (q, none) where
  diagnostics := h
  grammar := by
    intro d hd
    cases hd

theorem keeps_failure {d : Diagnostic} (h : q.diagnostics = p.diagnostics)
    (hd : d.problem.category = .grammar) : Keeps p (q, some d) where
  diagnostics := h
  grammar := by
    intro e he
    cases he
    exact hd

/-- A step of a parser that has reported the same. -/
theorem Keeps.trans {o : Outcome} (g : Keeps q o) (h : q.diagnostics = p.diagnostics) :
    Keeps p o where
  diagnostics := g.diagnostics.trans h
  grammar := g.grammar

theorem Reduces.diagnostics (h : Reduces p q) : q.diagnostics = p.diagnostics := by
  cases h with
  | fold => rfl

/-- A walk whose end keeps what has been reported keeps it all the way. -/
theorem Walks.reports {End : Parser → Outcome → Prop} {o : Outcome} (hw : Walks End p o)
    (hend : ∀ {q : Parser} {o : Outcome}, End q o → Keeps q o) : Keeps p o := by
  refine hw.keeps (I := fun q => q.diagnostics = p.diagnostics) (J := Keeps p) rfl ?_ ?_ ?_
  · intro q r hr hq
    exact hr.diagnostics.trans hq
  · intro q o he hq
    exact (hend he).trans hq
  · intro q m ms _ _ hq
    exact keeps_failure hq rfl

theorem Ends.keeps {o : Outcome} (h : Ends p o) : Keeps p o := by
  cases h with
  | done => exact keeps_ok rfl
  | unclosed => exact keeps_failure rfl rfl

theorem Arrives.keeps {t : Token} {o : Outcome} (h : Arrives t p o) (he : t.kind ≠ .error)
    (hi : t.kind ≠ .invalid) : Keeps p o := by
  cases h with
  | lexical kind => exact (he kind).elim
  | refused kind => exact (hi kind).elim
  | unread | operand | marker | value | argument => exact keeps_ok rfl
  | unreached | unopened => exact keeps_failure rfl rfl
  | semicolon _ h => exact h.keeps

theorem keeps_drain (p : Parser) : Keeps p p.drain :=
  (drain_walks p).reports fun he => he.keeps

/-- A token that is no report of a problem leaves what has been reported, and a parser that refuses
it does so because it does not fit. -/
theorem keeps_push {t : Token} (he : t.kind ≠ .error) (hi : t.kind ≠ .invalid) (p : Parser) :
    Keeps p (p.push t) :=
  (push_walks t p).reports fun ha => ha.keeps he hi

/-- A report of a problem is kept, and the parser goes on. -/
theorem push_error {t : Token} (h : t.kind = .error) (p : Parser) :
    p.push t = (p.report ⟨.lexicalError t.text, t.position⟩, none) := by
  unfold push
  rw [h]

theorem finish_diagnostics (p : Parser) : p.finish.1.diagnostics = p.diagnostics := by
  have hd := keeps_drain p
  unfold finish
  split
  · rename_i q h
    rw [h] at hd
    exact hd.diagnostics
  · rename_i q d h
    rw [h] at hd
    exact hd.diagnostics

end Parser

namespace Intake

/-- A parser that has failed comes to its failure. -/
theorem conclude_of_failure {i : Intake} {d : Diagnostic} (h : i.failure = some d) :
    i.conclude.2 = .error d := by
  unfold Intake.conclude
  rw [h]

/-- A parser that has kept a problem comes to the first one, however its tokens fit together. -/
theorem conclude_of_diagnostics {i : Intake} {d : Diagnostic} {ds : List Diagnostic}
    (h : i.failure = none) (hd : i.parser.diagnostics = d :: ds) :
    i.conclude.2 = .error d := by
  have hf := Parser.finish_diagnostics i.parser
  unfold Intake.conclude
  rw [h]
  dsimp only
  rw [hf, hd]

end Intake

end ExprYard
