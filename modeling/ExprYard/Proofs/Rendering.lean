import ExprYard.Proofs.Grammar.Language
import ExprYard.Proofs.Lexer.Phrasing
import ExprYard.Proofs.Parser.Places
import ExprYard.Proofs.Pipeline.Agreement
import ExprYard.Proofs.Source.Carets

/-!
# The caret of a rendered diagnostic

Whatever problem a source has, and in whichever way it is found, it is found at a rune that is no
blank or at the end of the source: a lexer skips the blanks before each phrase, so it is there that
its tokens start and that it gives up, and a parser fails at one of its tokens. So a rendered
diagnostic always shows its line, and the caret is under the rune that it is about.
-/

namespace ExprYard

/-! ## Places that can be shown -/

/-- A place in the source where a rune stands that is no blank, or the end of the source. -/
def Position.Visible (source : List Char) (file : String) (p : Position) : Prop :=
  p.file = file ∧ p.offset ≤ source.length ∧
    ∀ r, source[p.offset]? = some r → Rune.isBlank r = false

namespace Spot

variable {source : List Char} {file : String} {a : Spot}

/-- A spot of the source with no blank before it is such a place. -/
theorem visible_of_leads (h : (Spot.first source file).Leads a) (hr : Stops Rune.isBlank a.rest) :
    Position.Visible source file ⟨a.offset, a.file⟩ := by
  obtain ⟨hlength, hfile⟩ := h.finish
  refine ⟨hfile, ?_, fun r hget => hr r ?_⟩
  · have hsource : a.offset + a.rest.length = 0 + source.length := hlength
    show a.offset ≤ source.length
    omega
  · rw [h.rest_eq_drop, List.head?_drop]
    exact hget

theorem visible_skip (h : (Spot.first source file).Leads a) :
    Position.Visible source file ⟨a.skip.offset, a.skip.file⟩ :=
  visible_of_leads (h.trans a.leads_skip) a.stops_skip

end Spot

/-- The tokens that are read of a source start at such places, and if a problem is met it is met at
one. -/
theorem visible_of_reading {source : List Char} {file : String} (s : Stance) (a : Spot)
    (h : (Spot.first source file).Leads a) :
    (∀ t ∈ (reading s a).1, t.position.Visible source file) ∧
      ∀ d ∈ (reading s a).2, d.position.Visible source file := by
  have account := account_phrase s a
  have hskip := Spot.visible_skip h
  cases hp : phrase s a with
  | ended =>
    rw [reading_of_ended hp]
    exact ⟨(fun t ht => by cases ht), fun d hd => by cases hd⟩
  | failed d =>
    rw [hp] at account
    rw [reading_of_failed hp]
    cases account with
    | failed problem =>
      refine ⟨List.forall_mem_singleton.mpr hskip, fun d hd => ?_⟩
      cases hd
      exact hskip
  | read ts next b =>
    rw [reading_of_read hp]
    obtain ⟨htokens, hproblem⟩ := visible_of_reading next b (h.trans (leads_of_phrase hp))
    refine ⟨List.forall_mem_append.mpr ⟨?_, htokens⟩, hproblem⟩
    rw [hp] at account
    cases account with
    | word hw => exact List.forall_mem_singleton.mpr hskip
    | spaced hw => exact List.forall_mem_singleton.mpr hskip
    | pair hv =>
      refine List.forall_mem_cons.mpr ⟨hskip, List.forall_mem_singleton.mpr ?_⟩
      exact Spot.visible_skip ((h.trans a.leads_skip).trans hv.stands.leads)
termination_by a.rest.length
decreasing_by exact length_lt_of_phrase hp

/-! ## Problems of a source -/

/-- A problem that is found when a source is taken apart into tokens, when the tokens of a lexer are
parsed, with the lexer's own report or without it, or when a pipeline does so, in the order of turns
that it happens to choose or in any other. -/
inductive Fails (source : List Char) (file : String) (d : Diagnostic) : Prop where
  | tokenized (h : tokenize source file = .error d)
  | parsed (h : (parseLexer (Lexer.ofRunes source file)).1.2 = .error d)
  | inLine (h : parse source file = .error d)
  | run (h : Pipeline.parse source file = .error d)
  | piped {n : Network Intake}
      (reaches : Network.Reaches Intake.sink (Network.start source file Intake.start) n)
      (isOver : n.isOver = true) (h : n.conclude = .error d)

variable {source : List Char} {file : String} {d : Diagnostic}

theorem visible_of_parseLexer (h : (parseLexer (Lexer.ofRunes source file)).1.2 = .error d) :
    d.position.Visible source file := by
  rw [parseLexer_ofRunes] at h
  refine Intake.place_of_conclude ?_ h
  rw [(Lexer.tokens_eq_reading source file).1]
  exact (visible_of_reading .start _ (Spot.Leads.refl _)).1

theorem visible_of_tokenize (h : tokenize source file = .error d) :
    d.position.Visible source file := by
  obtain ⟨-, herror⟩ := Lexer.tokens_eq_reading source file
  unfold tokenize at h
  dsimp only at h
  split at h
  · rename_i error heq
    cases h
    exact (visible_of_reading .start _ (Spot.Leads.refl _)).2 d (herror ▸ heq)
  · cases h

/-- A problem of the lexer takes the place of a report of it, which is at the same place. -/
theorem visible_of_parse (h : parse source file = .error d) : d.position.Visible source file := by
  have attuned := attuned_drain (attuned_start source file)
  have visible : ∀ e, (parseLexer (Lexer.ofRunes source file)).1.2 = .error e →
      e.position.Visible source file := fun e => visible_of_parseLexer
  unfold parse at h
  unfold parseLexer at h visible
  generalize (Lexer.ofRunes source file).drain Intake.sink Intake.start = drained
    at attuned h visible
  obtain ⟨i, l⟩ := drained
  dsimp only at attuned h visible
  have hparser : l.error = none → i.conclude.2 = .error d := by
    intro hnone
    rw [hnone] at h
    cases hresult : i.conclude.2 with
    | ok trees =>
      rw [hresult] at h
      cases h
    | error e =>
      rw [hresult] at h
      exact h
  cases attuned with
  | clean clean => exact visible d (hparser clean.error)
  | failed error => exact visible d (hparser error)
  | @reported e gaveUp failure diagnostics =>
    have hreport := Intake.conclude_of_diagnostics failure diagnostics
    rw [hreport, gaveUp.error] at h
    cases h
    have hplace := visible _ hreport
    exact hplace

theorem visible_of_over {n : Network Intake}
    (reaches : Network.Reaches Intake.sink (Network.start source file Intake.start) n)
    (isOver : n.isOver = true) (h : n.conclude = .error d) :
    d.position.Visible source file := by
  rw [Network.conclude_of_over reaches isOver] at h
  exact visible_of_parse h

theorem Fails.visible (h : Fails source file d) : d.position.Visible source file := by
  cases h with
  | tokenized h => exact visible_of_tokenize h
  | parsed h => exact visible_of_parseLexer h
  | inLine h => exact visible_of_parse h
  | run h =>
    obtain ⟨reaches, stuck⟩ :=
      Network.reaches_run Intake.sink (Network.start source file Intake.start)
    rcases Network.isOver_or_move Intake.sink _ with isOver | ⟨a, m, hm⟩
    · exact visible_of_over reaches isOver h
    · rw [stuck a] at hm
      cases hm
  | piped reaches isOver h => exact visible_of_over reaches isOver h

/-- Every problem of a source, however it is found, is in the source or at its end, and rendered it
shows its line with the caret in the right place. `lineAt` finds the line of its offset, the spaces
that are not shown before the line do not reach the column, and the caret is that far behind the
label of the line: under the rune at the offset, or behind the last rune of the line if the offset
is the end of the source. -/
theorem diagnostic_points (source : List Char) (file : String) (d : Diagnostic)
    (h : Fails source file d) :
    d.position.file = file ∧ d.position.offset ≤ source.length ∧
      ∃ line, lineAt source d.position.offset = some line ∧
        line.Holds source d.position.offset ∧ Diagnostic.indentOf line.text ≤ line.column ∧
        (d.position.offset = source.length → line.column = line.text.length) ∧
        d.PointsAt source line := by
  obtain ⟨hfile, hoffset, hvisible⟩ := h.visible
  obtain ⟨line, hline, holds⟩ := exists_lineAt hoffset
  obtain ⟨hindent, hpoints⟩ := Diagnostic.pointsAt_of_holds hline holds hvisible
  exact ⟨hfile, hoffset, line, hline, holds, hindent, holds.column_of_end, hpoints⟩

/-- The `+` on the second line, behind two spaces and a parenthesis, lacks an operand. -/
theorem diagnostic_points_plus :
    ∃ line, lineAt ['a', ';', '\n', ' ', ' ', '(', '1', ' ', '+', ')'] 8 = some line ∧
      Diagnostic.PointsAt ⟨.missingOperand "+", 8, "shell"⟩
        ['a', ';', '\n', ' ', ' ', '(', '1', ' ', '+', ')'] line := by
  obtain ⟨-, -, line, hline, -, -, -, hpoints⟩ :=
    diagnostic_points ['a', ';', '\n', ' ', ' ', '(', '1', ' ', '+', ')'] "shell"
      ⟨.missingOperand "+", 8, "shell"⟩ (.parsed (by decide +kernel))
  exact ⟨line, hline, hpoints⟩

end ExprYard
