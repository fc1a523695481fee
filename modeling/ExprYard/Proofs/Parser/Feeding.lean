import ExprYard.Proofs.Grammar.Reading
import ExprYard.Proofs.Lexer.Turns
import ExprYard.Proofs.Parser.Reports

/-!
# What a parser comes to that is fed

A parser that is fed a list of tokens takes all of them in, or it stops at the first that it
refuses. `Fed` has these two cases, and what a list of tokens is parsed to is a matter of them
(`fed`).

Some tokens are reports: of a lexical problem, or that they were refused beforehand. A parser keeps
what they say in their order and goes on (`Takes.reported`). Once the tokens are over, the first
report is the result, whatever the end of the last statement comes to. A refusal is another matter:
the parser stops there and does not look at what was reported, so the refusal is the result
(`first_report_or_refusal`, `refusal_before_report`).
-/

namespace ExprYard

/-- The problem that a token reports, if it is a report. -/
def Token.report? (t : Token) : Option Diagnostic :=
  match t.kind with
  | .error => some ⟨.lexicalError t.text, t.position⟩
  | .invalid => some (Parser.stray t)
  | _ => none

theorem Token.report?_eq_none {t : Token} (he : t.kind ≠ .error) (hi : t.kind ≠ .invalid) :
    t.report? = none := by
  unfold Token.report?
  split
  · rename_i hk
    exact (he hk).elim
  · rename_i hk
    exact (hi hk).elim
  · rfl

/-- A token that stands for something in a text is no report. -/
theorem Token.report?_of_isSpoken {t : Token} (h : t.kind.isSpoken = true) : t.report? = none := by
  refine Token.report?_eq_none (Kind.ne_error_of_isSpoken h) fun hi => ?_
  rw [hi] at h
  cases h

namespace Parser

/-! ## Reports -/

variable {t : Token} {ts : List Token} {p q : Parser}

/-- A token that was refused beforehand is kept, and the parser goes on. -/
theorem push_invalid (h : t.kind = .invalid) (p : Parser) :
    p.push t = (p.report (stray t), none) := by
  unfold push
  rw [h]

/-- A parser keeps what a token reports behind what it has kept, and fails for no report. -/
theorem push_reported (t : Token) (p : Parser) :
    (p.push t).1.diagnostics = p.diagnostics ++ t.report?.toList ∧
      ∀ d, (p.push t).2 = some d → t.report? = none ∧ d.problem.category = .grammar := by
  by_cases he : t.kind = .error
  · rw [push_error he, Token.report?, he]
    exact ⟨rfl, fun d hd => by cases hd⟩
  · by_cases hi : t.kind = .invalid
    · rw [push_invalid hi, Token.report?, hi]
      exact ⟨rfl, fun d hd => by cases hd⟩
    · have keeps := keeps_push he hi p
      rw [Token.report?_eq_none he hi]
      refine ⟨keeps.diagnostics.trans (List.append_nil _).symm, fun d hd => ⟨rfl, ?_⟩⟩
      exact keeps.grammar d hd

/-- A parser that takes tokens keeps what they report, in their order. -/
theorem Takes.reported (h : Takes ts p q) :
    q.diagnostics = p.diagnostics ++ ts.filterMap Token.report? := by
  induction ts generalizing p with
  | nil =>
    rw [show p = q from h]
    exact (List.append_nil _).symm
  | cons t ts ih =>
    obtain ⟨m, hm, hts⟩ := h
    have hreported := (push_reported t p).1
    rw [hm] at hreported
    rw [ih hts, hreported, List.append_assoc, List.filterMap_cons]
    cases t.report? <;> rfl

/-- A parser that takes tokens of a text has nothing more reported. -/
theorem Takes.diagnostics (h : Takes ts p q) (spoken : ∀ t ∈ ts, t.kind.isSpoken = true) :
    q.diagnostics = p.diagnostics := by
  have hnone : ts.filterMap Token.report? = [] :=
    List.filterMap_eq_nil_iff.mpr fun t ht => Token.report?_of_isSpoken (spoken t ht)
  rw [h.reported, hnone, List.append_nil]

/-! ## Feeding -/

/-- What a parser comes to that is fed tokens: it has taken them all, or it has refused one and
leaves the others. -/
inductive Fed (p : Parser) : List Token → Intake → Prop where
  | taken {ts : List Token} {q : Parser} (h : Takes ts p q) : Fed p ts ⟨q, none⟩
  | refused {before after : List Token} {t : Token} {q r : Parser} {d : Diagnostic}
      (h : Takes before p q) (failed : q.push t = (r, some d)) :
      Fed p (before ++ t :: after) ⟨r, some d⟩

theorem fed (ts : List Token) (p : Parser) : Fed p ts (Intake.sink.feed ⟨p, none⟩ ts) := by
  induction ts generalizing p with
  | nil => exact .taken rfl
  | cons t ts ih =>
    show Fed p (t :: ts) (Intake.sink.feed ⟨(p.push t).1, (p.push t).2⟩ ts)
    cases hm : p.push t with
    | mk m failure =>
      cases failure with
      | some d =>
        rw [Sink.feed_of_not_wants rfl]
        show Fed p ([] ++ t :: ts) ⟨m, some d⟩
        exact .refused rfl hm
      | none =>
        have hfed := ih m
        revert hfed
        generalize Intake.sink.feed ⟨m, none⟩ ts = i
        intro hfed
        cases hfed with
        | taken h => exact .taken (.cons hm h)
        | refused h failed => exact .refused (.cons hm h) failed

/-- What tokens are parsed to that a parser takes: their first report, or else what the end of the
last statement comes to. -/
theorem conclude_of_taken (q : Parser) :
    (Intake.mk q none).conclude.1.diagnostics = q.diagnostics ∧
      (Intake.mk q none).conclude.2 = q.diagnostics.head?.elim q.finish.2 .error := by
  have hfinish := finish_diagnostics q
  unfold Intake.conclude
  dsimp only
  cases hd : q.diagnostics with
  | nil =>
    rw [hd] at hfinish
    rw [hfinish]
    exact ⟨hfinish, rfl⟩
  | cons d ds =>
    rw [hd] at hfinish
    rw [hfinish]
    exact ⟨hfinish, rfl⟩

/-- A parser that has something reported comes to a failure. If it takes all tokens in, that is the
first report, whatever the end of the last statement comes to. If it refuses one, that is the
refusal, and there is no other way for the first report not to be the result. What has been reported
are the reports among the tokens before the one that is refused. -/
theorem first_report_or_refusal (ts : List Token) (d : Diagnostic)
    (first : (parseTokens ts).1.diagnostics.head? = some d) :
    (parseTokens ts).1.diagnostics
        = (ts.take (pushAll ts empty).2.1).filterMap Token.report? ∧
      ((pushAll ts empty).2.2 = none → (parseTokens ts).2 = .error d) ∧
      ∀ refusal, (pushAll ts empty).2.2 = some refusal →
        (parseTokens ts).2 = .error refusal ∧ refusal.problem.category = .grammar := by
  unfold parseTokens at first ⊢
  have hfed := fed ts empty
  revert hfed first
  rw [show Intake.start = ⟨empty, none⟩ from rfl]
  generalize Intake.sink.feed ⟨empty, none⟩ ts = i
  intro first hfed
  cases hfed with
  | @taken _ q h =>
    obtain ⟨hkept, hresult⟩ := conclude_of_taken q
    rw [hkept] at first
    rw [takes_iff_pushAll.mp h, hkept, hresult, first, List.take_length, h.reported]
    exact ⟨rfl, fun _ => rfl, fun refusal hr => by cases hr⟩
  | @refused before after t q r refusal h failed =>
    obtain ⟨hkept, hnone⟩ := push_reported t q
    rw [failed] at hkept hnone
    obtain ⟨hreport, hgrammar⟩ := hnone refusal rfl
    rw [pushAll_of_refused h failed, List.take_left]
    refine ⟨?_, fun hn => (by cases hn), fun refusal' hr => ?_⟩
    · show r.diagnostics = _
      rw [hkept, hreport, h.reported]
      exact List.append_nil _
    · cases hr
      exact ⟨rfl, hgrammar⟩

/-- The report of a problem, and an open parenthesis. -/
def reportThenOpening : List Token :=
  [⟨.error, "boom", 0, 0, "shell"⟩, ⟨.openParen, "(", 1, 2, "shell"⟩]

/-- The parenthesis is not closed, but that is not the result. -/
theorem first_report_or_refusal_opening :
    (pushAll reportThenOpening empty).1.finish.2
        = .error ⟨.mismatchedParenthesis, ⟨1, "shell"⟩⟩ ∧
      (parseTokens reportThenOpening).2 = .error ⟨.lexicalError "boom", ⟨0, "shell"⟩⟩ :=
  ⟨rfl, (first_report_or_refusal reportThenOpening ⟨.lexicalError "boom", ⟨0, "shell"⟩⟩ rfl).2.1 rfl⟩

/-- A parenthesis that closes nothing is the result, though a lexical problem was reported before
it. -/
theorem refusal_before_report :
    (parseTokens [⟨.error, "boom", 0, 0, "shell"⟩, ⟨.closeParen, ")", 1, 2, "shell"⟩]).1.diagnostics
        = [⟨.lexicalError "boom", ⟨0, "shell"⟩⟩] ∧
      (parseTokens [⟨.error, "boom", 0, 0, "shell"⟩, ⟨.closeParen, ")", 1, 2, "shell"⟩]).2
        = .error ⟨.mismatchedParenthesis, ⟨1, "shell"⟩⟩ :=
  ⟨rfl, rfl⟩

end Parser

end ExprYard
