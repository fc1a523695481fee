import ExprYard.Proofs.Parser.Steps

/-!
# A parser and its requests

A parser is asked to take tokens in and to finish, in any order and any number of times, and it goes
on after a failure with whatever the failed step has left. `after` is the parser after some
requests. Its layers are in order however it was asked (`layered_after`).
-/

namespace ExprYard

/-- What a parser may be asked for. -/
inductive Request where
  | push (t : Token)
  | finish
deriving DecidableEq

namespace Parser

/-- The parser after a request, whether it fails or not. -/
def handle (p : Parser) : Request → Parser
  | .push t => (p.push t).1
  | .finish => p.finish.1

/-- The parser after some requests. -/
def after (rs : List Request) (p : Parser) : Parser :=
  rs.foldl handle p

/-- What each request keeps, any number of them keep. -/
theorem after_invariant {I : Parser → Prop} {p : Parser} (h : I p)
    (hstep : ∀ (q : Parser) (r : Request), I q → I (q.handle r)) (rs : List Request) :
    I (p.after rs) := by
  induction rs generalizing p with
  | nil => exact h
  | cons r rs ih => exact ih (hstep p r h)

variable {p q : Parser}

/-- A parser whose statement has ended has finished trees and nothing else. -/
theorem of_drain (h : p.drain = (q, none)) :
    q.pending = [] ∧ q.statementStart = q.operands.length := by
  have hwalk := drain_walks p
  rw [h] at hwalk
  obtain ⟨r, -, hend⟩ := hwalk.exists_end (I := fun _ => True) trivial (fun _ _ => trivial) rfl
  cases hend with
  | done pending => exact ⟨pending, rfl⟩

theorem finish_of_drain (h : p.drain = (q, none)) :
    p.finish = ({ q with operands := [], statementStart := 0 }, .ok q.trees) := by
  unfold finish
  rw [h]

theorem finish_of_failed {d : Diagnostic} (h : p.drain = (q, some d)) :
    p.finish = (q, .error d) := by
  unfold finish
  rw [h]

/-- A request to finish is the end of a statement, after which the trees are handed over if it has
not failed. -/
theorem finish_cases (p : Parser) :
    (∃ q, p.drain = (q, none) ∧
      p.finish = ({ q with operands := [], statementStart := 0 }, .ok q.trees)) ∨
    ∃ q d, p.drain = (q, some d) ∧ p.finish = (q, .error d) := by
  cases h : p.drain with
  | mk q failure =>
    cases failure with
    | none => exact .inl ⟨q, rfl, finish_of_drain h⟩
    | some d => exact .inr ⟨q, d, rfl, finish_of_failed h⟩

theorem Layered.finish (h : p.Layered) : p.finish.1.Layered := by
  have hdrain := h.drain
  rcases finish_cases p with ⟨q, hq, hfinish⟩ | ⟨q, d, hq, hfinish⟩
  · rw [hfinish]
    have hcounts : ({ q with operands := [], statementStart := 0 } : Parser).counts = [] := by
      rw [counts, (of_drain hq).1]
      rfl
    exact Layered.begins hcounts
  · rw [hq] at hdrain
    rw [hfinish]
    exact hdrain

/-- However it was asked, a parser has its operands in layers. -/
theorem layered_after (rs : List Request) : (empty.after rs).Layered := by
  refine after_invariant layered_empty (fun q r hq => ?_) rs
  cases r with
  | push t => exact hq.push t
  | finish => exact hq.finish

end Parser

end ExprYard
