import ExprYard.Proofs.Grammar.Reading
import ExprYard.Proofs.Parser.Backdrop
import ExprYard.Proofs.Parser.Requests

/-!
# A parser after a semicolon

A semicolon that a parser takes leaves nothing of its statement but finished trees, so the parser
stands where a fresh one does, on a backdrop of those trees and of what has been reported
(`eq_onto_of_drain`). From there on it does what a fresh one does, whatever it is given: tokens that
make no statement are refused for the same reasons, and what a refused token leaves behind is left
behind on the backdrop as well. `Resumes` lists what can be observed of that, and
`semicolon_restarts` says that it holds after any tokens.

A request to finish hands the trees of the backdrop over, and leaves only the reports.
-/

namespace ExprYard

namespace Parser

variable {p q : Parser} {b : Backdrop}

/-- A parser whose statement has ended is a fresh one on a backdrop. -/
theorem eq_onto_of_drain (h : p.drain = (q, none)) (r : Relocation) :
    q = empty.onto ⟨q.operands, q.diagnostics, r⟩ := by
  obtain ⟨hpending, hstart⟩ := of_drain h
  obtain ⟨operands, pending, diagnostics, statementStart⟩ := q
  dsimp only at hpending hstart
  subst hpending hstart
  simp [onto, empty]

/-! ## On a backdrop that moves no places -/

theorem map_relocate_stay (xs : List Tree) : xs.map (Tree.relocate .stay) = xs := by
  rw [← Tree.relocateList_eq_map, Tree.relocateList_stay]

theorem map_diagnostic_stay (ds : List Diagnostic) : ds.map (Diagnostic.relocate .stay) = ds :=
  List.map_id ds

theorem push_onto_stay (hb : b.relocation = .stay) (t : Token) (p : Parser) :
    (p.onto b).push t = ((p.push t).1.onto b, (p.push t).2) := by
  have h := push_onto b p t
  rw [hb] at h
  refine h.trans (Prod.ext rfl ?_)
  show (p.push t).2.map (Diagnostic.relocate b.relocation) = _
  rw [hb]
  exact Option.map_id_apply

/-- Any tokens, taken or refused, leave a parser on its backdrop. -/
theorem after_onto_stay (hb : b.relocation = .stay) (v : List Token) (p : Parser) :
    (p.onto b).after (v.map .push) = (p.after (v.map .push)).onto b := by
  induction v generalizing p with
  | nil => rfl
  | cons t v ih =>
    show ((p.onto b).push t).1.after (v.map .push) = ((p.push t).1.after (v.map .push)).onto b
    rw [push_onto_stay hb]
    exact ih (p.push t).1

/-! ## What can be observed -/

/-- The parser `q` does as `fresh` does, behind trees and reports from before. -/
structure Resumes (before : List Tree) (reported : List Diagnostic) (fresh q : Parser) :
    Prop where
  trees : q.trees = before ++ fresh.trees
  reports : q.diagnostics = reported ++ fresh.diagnostics
  /-- A token is taken by both, or refused by both for the same reason. -/
  push : ∀ t : Token, (q.push t).2 = (fresh.push t).2
  /-- What is handed over is handed over behind the trees, and a failure is the same. -/
  finish : q.finish.2 = fresh.finish.2.map (before ++ ·)

theorem resumes_onto (hb : b.relocation = .stay) (p : Parser) :
    Resumes b.trees.reverse b.diagnostics p (p.onto b) where
  trees := by
    show (p.operands.map (Tree.relocate b.relocation) ++ b.trees).reverse = _
    rw [hb, map_relocate_stay, List.reverse_append]
    rfl
  reports := by
    show b.diagnostics ++ p.diagnostics.map (Diagnostic.relocate b.relocation) = _
    rw [hb, map_diagnostic_stay]
  push := fun t => by rw [push_onto_stay hb]
  finish := by
    rw [finish_onto]
    unfold Backdrop.result
    cases p.finish.2 with
    | ok trees =>
      dsimp only
      rw [hb, map_relocate_stay]
      rfl
    | error d =>
      dsimp only
      rw [hb]
      rfl

/-- A parser that is a fresh one on a backdrop goes on as a fresh one does. -/
theorem resumes_of_eq_onto {before : List Tree} {reported : List Diagnostic}
    (h : q = empty.onto ⟨before.reverse, reported, .stay⟩) (v : List Token) :
    Resumes before reported (empty.after (v.map .push)) (q.after (v.map .push)) := by
  have hb : (⟨before.reverse, reported, .stay⟩ : Backdrop).relocation = .stay := rfl
  have hresumes := resumes_onto hb (empty.after (v.map .push))
  rw [← after_onto_stay hb v empty, ← h, List.reverse_reverse] at hresumes
  exact hresumes

/-- A parser whose statement has ended has nothing more to fold. -/
theorem drain_of_drain (h : p.drain = (q, none)) : q.drain = (q, none) := by
  obtain ⟨hpending, hstart⟩ := of_drain h
  obtain ⟨operands, pending, diagnostics, statementStart⟩ := q
  dsimp only at hpending hstart
  subst hpending hstart
  rfl

/-- Tokens that end with a semicolon and are all taken have ended their statement. -/
theorem drain_of_semicolon {u : List Token} {s : Token} (semicolon : s.kind = .keyword .semicolon)
    (h : Takes (u ++ [s]) empty p) : ∃ m : Parser, m.drain = (p, none) := by
  obtain ⟨m, -, p', hp', hend⟩ := takes_append.mp h
  have heq : p' = p := hend
  rw [push_semicolon semicolon, heq] at hp'
  exact ⟨m, hp'⟩

/-- Tokens that end with a semicolon and are all taken leave a parser that does with any further
tokens what a fresh one does with them: each is taken, or refused for the same reason, the trees
after each are those from before and then those of the fresh parser, and so are the reports; and in
the end it hands over the same trees behind those from before, or fails for the same reason. To
finish in between hands over the trees from before, and then those of the fresh parser. -/
theorem semicolon_restarts (u : List Token) (s : Token) (p : Parser)
    (semicolon : s.kind = .keyword .semicolon)
    (taken : pushAll (u ++ [s]) empty = (p, (u ++ [s]).length, none)) :
    (∀ v : List Token,
        Resumes p.trees p.diagnostics (empty.after (v.map .push)) (p.after (v.map .push))) ∧
      p.finish.2 = .ok p.trees ∧
      ∀ v : List Token,
        Resumes [] p.diagnostics (empty.after (v.map .push)) (p.finish.1.after (v.map .push)) := by
  obtain ⟨m, hm⟩ := drain_of_semicolon semicolon (takes_iff_pushAll.mpr taken)
  have honto : p = empty.onto ⟨p.trees.reverse, p.diagnostics, .stay⟩ := by
    rw [trees, List.reverse_reverse]
    exact eq_onto_of_drain hm .stay
  have hfinish := finish_of_drain (drain_of_drain hm)
  have hended : p.finish.1 = empty.onto ⟨[], p.diagnostics, .stay⟩ := by
    rw [hfinish]
    simp [onto, empty, (of_drain hm).1]
  exact ⟨resumes_of_eq_onto honto, congrArg Prod.snd hfinish, resumes_of_eq_onto hended⟩

/-- Behind `a;` the tokens of `b *` lack an operand as they do by themselves: the tree of `a` is not
taken for one. -/
theorem semicolon_restarts_operator :
    ((⟨[.leaf ⟨.identifier, "a", 0, 1, "shell"⟩], [], [], 1⟩ : Parser).after
        ([⟨.identifier, "b", 3, 4, "shell"⟩, ⟨.operator .mul, "*", 5, 6, "shell"⟩].map
          Request.push)).finish.2
      = .error (missing ⟨.operator .mul, "*", 5, 6, "shell"⟩) :=
  ((semicolon_restarts [⟨.identifier, "a", 0, 1, "shell"⟩] ⟨.keyword .semicolon, ";", 1, 2, "shell"⟩
      ⟨[.leaf ⟨.identifier, "a", 0, 1, "shell"⟩], [], [], 1⟩ rfl (by decide)).1
    [⟨.identifier, "b", 3, 4, "shell"⟩, ⟨.operator .mul, "*", 5, 6, "shell"⟩]).finish.trans
    (by decide)

end Parser

end ExprYard
