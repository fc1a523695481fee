import ExprYard.Proofs.Parser.Reports
import ExprYard.Proofs.Relocation

/-!
# What a parser does is a matter of its statement

A parser that goes on behind finished statements has their trees below its own, counts its operands
from there, and may have read its tokens in another place. None of that makes a difference to what
it does: `Parser.onto` puts a parser on such a backdrop, and each of its moves is the same move on
the backdrop, with the same failure (`push_onto`, `finish_onto`).
-/

namespace ExprYard

/-- What is behind a parser: finished trees, the latest first, problems that were reported, and a
move of all places. -/
structure Backdrop where
  trees : List Tree
  diagnostics : List Diagnostic
  relocation : Relocation

def Marker.onto (b : Backdrop) : Marker → Marker
  | operator t binding => operator (t.relocate b.relocation) binding
  | paren t operands => paren (t.relocate b.relocation) (operands + b.trees.length)
  | call t => call (t.relocate b.relocation)
  | letWord t => letWord (t.relocate b.relocation)

namespace Parser

variable (b : Backdrop) (p : Parser)

/-- The parser on a backdrop. -/
def onto : Parser where
  operands := p.operands.map (Tree.relocate b.relocation) ++ b.trees
  pending := p.pending.map (Marker.onto b)
  diagnostics := b.diagnostics ++ p.diagnostics.map (Diagnostic.relocate b.relocation)
  statementStart := p.statementStart + b.trees.length

/-- What a step leaves, on a backdrop. -/
def Outcome.onto (o : Outcome) : Outcome :=
  (o.1.onto b, o.2.map (Diagnostic.relocate b.relocation))

theorem floor_onto : (p.onto b).floor = p.floor + b.trees.length := by
  unfold floor
  show floor.go (p.onto b) (p.pending.map (Marker.onto b)) = _
  induction p.pending with
  | nil => rfl
  | cons m ms ih =>
    cases m with
    | paren t operands => rfl
    | _ => exact ih

theorem available_onto : (p.onto b).available = p.available := by
  unfold available
  rw [floor_onto]
  simp only [onto, List.length_append, List.length_map]
  omega

theorem missing_relocate (t : Token) :
    missing (t.relocate b.relocation) = (missing t).relocate b.relocation := by
  unfold missing
  rw [Token.position_relocate]
  rfl

theorem mismatched_relocate (t : Token) :
    mismatched (t.relocate b.relocation) = (mismatched t).relocate b.relocation := by
  unfold mismatched
  rw [Token.position_relocate]
  rfl

theorem stray_relocate (t : Token) :
    stray (t.relocate b.relocation) = (stray t).relocate b.relocation := by
  unfold stray
  rw [Token.position_relocate]
  rfl

theorem report_onto (d : Diagnostic) :
    (p.onto b).report (d.relocate b.relocation) = (p.report d).onto b := by
  simp [report, onto]

theorem fold_onto (t : Token) (count : Nat) :
    fold (t.relocate b.relocation) count (p.onto b) = (fold t count p).onto b := by
  unfold fold
  rw [available_onto]
  split
  · exact congrArg (fun d => (p.onto b, some d)) (missing_relocate b t)
  · rename_i h
    have hlen : count ≤ (p.operands.map (Tree.relocate b.relocation)).length := by
      rw [List.length_map]
      unfold available at h
      omega
    have htake : ((p.onto b).operands.take count).reverse
        = (p.operands.take count).reverse.map (Tree.relocate b.relocation) := by
      rw [onto, List.take_append_of_le_length hlen, List.map_reverse, List.map_take]
    have hdrop : (p.onto b).operands.drop count
        = (p.operands.drop count).map (Tree.relocate b.relocation) ++ b.trees := by
      rw [onto, List.drop_append_of_le_length hlen, List.map_drop]
    dsimp only
    rw [htake, hdrop, ← Tree.relocate_branch]
    rfl

/-- The parser with fewer markers, on a backdrop. -/
theorem pending_onto (ms : List Marker) :
    ({ p.onto b with pending := ms.map (Marker.onto b) } : Parser)
      = Parser.onto b { p with pending := ms } := rfl

theorem foldBefore_go_onto (incoming : Binding) (ms : List Marker) :
    foldBefore.go incoming (ms.map (Marker.onto b)) (p.onto b)
      = (foldBefore.go incoming ms p).onto b := by
  induction ms generalizing p with
  | nil => rfl
  | cons m ms ih =>
    cases m with
    | operator t binding =>
      simp only [List.map_cons, Marker.onto, foldBefore.go, pending_onto, fold_onto]
      split
      · obtain ⟨q, d⟩ := fold t binding.arity.operands { p with pending := ms }
        cases d with
        | none => exact ih q
        | some d => rfl
      · rfl
    | _ => rfl

theorem foldBefore_onto (incoming : Binding) :
    (p.onto b).foldBefore incoming = (p.foldBefore incoming).onto b :=
  foldBefore_go_onto b p incoming p.pending

theorem pushOperator_onto (t : Token) (binding : Binding) :
    (p.onto b).pushOperator (t.relocate b.relocation) binding
      = (p.pushOperator t binding).onto b := by
  unfold pushOperator
  rw [foldBefore_onto]
  split
  · rfl
  · obtain ⟨q, d⟩ := p.foldBefore binding
    cases d <;> rfl

theorem endGroup_go_onto (closing : Token) (ms : List Marker) :
    endGroup.go (closing.relocate b.relocation) (ms.map (Marker.onto b)) (p.onto b)
      = (endGroup.go closing ms p).onto b := by
  induction ms generalizing p with
  | nil => exact congrArg (fun d => (p.onto b, some d)) (mismatched_relocate b closing)
  | cons m ms ih =>
    cases m with
    | operator t binding =>
      simp only [List.map_cons, Marker.onto, endGroup.go, pending_onto, fold_onto]
      obtain ⟨q, d⟩ := fold t binding.arity.operands { p with pending := ms }
      cases d with
      | none => exact ih q
      | some d => rfl
    | paren t operands =>
      have hlen : (p.onto b).operands.length = p.operands.length + b.trees.length := by
        simp [onto]
      simp only [List.map_cons, Marker.onto, endGroup.go, pending_onto]
      simp only [hlen, Nat.add_lt_add_iff_right]
      split <;> rfl
    | _ => exact congrArg (fun d => (_, some d)) (mismatched_relocate b closing)

theorem endGroup_onto (closing : Token) :
    (p.onto b).endGroup (closing.relocate b.relocation) = (p.endGroup closing).onto b :=
  endGroup_go_onto b p closing p.pending

/-- A group that has ended has left an operand. -/
theorem operands_of_endGroup {p q : Parser} {closing : Token}
    (h : p.endGroup closing = (q, none)) : q.operands ≠ [] := by
  unfold endGroup at h
  generalize p.pending = ms at h
  induction ms generalizing p with
  | nil => cases h
  | cons m ms ih =>
    cases m with
    | operator t binding =>
      unfold endGroup.go at h
      split at h
      · exact ih h
      · rename_i hne
        exact (hne q h).elim
    | paren t operands =>
      cases h
      split
      · rename_i hlt
        exact List.ne_nil_of_length_pos (Nat.zero_lt_of_lt hlt)
      · exact List.cons_ne_nil _ _
    | _ => cases h

theorem pushClosing_onto (closing : Token) :
    (p.onto b).pushClosing (closing.relocate b.relocation) = (p.pushClosing closing).onto b := by
  unfold pushClosing
  rw [endGroup_onto]
  cases h : p.endGroup closing with
  | mk q d =>
  cases d with
  | some d => rfl
  | none =>
    obtain ⟨x, xs, hx⟩ := List.exists_cons_of_ne_nil (operands_of_endGroup h)
    have hoperands : (q.onto b).operands = x.relocate b.relocation ::
        (xs.map (Tree.relocate b.relocation) ++ b.trees) := by
      rw [onto, hx]
      rfl
    have hclose : ((x.relocate b.relocation).closeTuple ::
        (xs.map (Tree.relocate b.relocation) ++ b.trees))
        = (x.closeTuple :: xs).map (Tree.relocate b.relocation) ++ b.trees := by
      rw [Tree.closeTuple_relocate]
      rfl
    have hpending : (q.onto b).pending = q.pending.map (Marker.onto b) := rfl
    dsimp only [Outcome.onto, Option.map_none]
    rw [hpending]
    cases hp : q.pending with
    | nil =>
      dsimp only [List.map_nil]
      rw [hoperands, hx]
      dsimp only
      rw [hclose]
      rfl
    | cons m ms =>
      cases m with
      | call t => exact fold_onto b { q with pending := ms } t 1
      | _ =>
        dsimp only [List.map_cons, Marker.onto]
        rw [hoperands, hx]
        dsimp only
        rw [hclose]
        rfl

theorem drain_go_onto (ms : List Marker) :
    drain.go (ms.map (Marker.onto b)) (p.onto b) = (drain.go ms p).onto b := by
  induction ms generalizing p with
  | nil =>
    have hlen : (p.onto b).operands.length = p.operands.length + b.trees.length := by
      simp [onto]
    show (({ p.onto b with statementStart := (p.onto b).operands.length } : Parser), none) = _
    rw [hlen]
    rfl
  | cons m ms ih =>
    cases m with
    | operator t binding =>
      simp only [List.map_cons, Marker.onto, drain.go, pending_onto, fold_onto]
      obtain ⟨q, d⟩ := fold t binding.arity.operands { p with pending := ms }
      cases d with
      | none => exact ih q
      | some d => rfl
    | letWord t =>
      simp only [List.map_cons, Marker.onto, drain.go, pending_onto, fold_onto]
      obtain ⟨q, d⟩ := fold t 1 { p with pending := ms }
      cases d with
      | none => exact ih q
      | some d => rfl
    | paren t operands => exact congrArg (fun d => (_, some d)) (mismatched_relocate b t)
    | call t => exact congrArg (fun d => (_, some d)) (mismatched_relocate b t)

theorem drain_onto : (p.onto b).drain = p.drain.onto b :=
  drain_go_onto b p p.pending

/-- On a backdrop a parser takes a token in as it does without. -/
theorem push_onto (t : Token) :
    (p.onto b).push (t.relocate b.relocation) = (p.push t).onto b := by
  have hkind : (t.relocate b.relocation).kind = t.kind := rfl
  have htext : (t.relocate b.relocation).text = t.text := rfl
  have hlen : (p.onto b).operands.length = p.operands.length + b.trees.length := by
    simp [onto]
  unfold push
  rw [hkind, htext, Token.position_relocate, hlen]
  split
  · exact congrArg (fun q => (q, none)) (report_onto b p ⟨.lexicalError t.text, t.position⟩)
  · rw [stray_relocate]
    exact congrArg (fun q => (q, none)) (report_onto b p (stray t))
  · rfl
  · rfl
  · rfl
  · rfl
  · rfl
  · rfl
  · rfl
  · rfl
  · rfl
  · rfl
  · rfl
  · exact pushClosing_onto b p t
  · rfl
  · exact drain_onto b p
  · exact pushOperator_onto b p t _
  · split
    · exact pushOperator_onto b p t _
    · rw [stray_relocate]
      rfl

end Parser

/-! ## Whole runs -/

namespace Backdrop

variable (b : Backdrop)

/-- A result on a backdrop: the trees stand behind those that were finished before. -/
def result : Except Diagnostic (List Tree) → Except Diagnostic (List Tree)
  | .ok trees => .ok (b.trees.reverse ++ trees.map (Tree.relocate b.relocation))
  | .error d => .error (d.relocate b.relocation)

end Backdrop

theorem Parser.finish_onto (b : Backdrop) (p : Parser) :
    (p.onto b).finish.2 = b.result p.finish.2 := by
  unfold finish
  rw [drain_onto]
  obtain ⟨q, d⟩ := p.drain
  cases d with
  | some d => rfl
  | none =>
    show Except.ok (q.operands.map (Tree.relocate b.relocation) ++ b.trees).reverse = _
    rw [List.reverse_append, ← List.map_reverse]
    rfl

namespace Intake

variable (b : Backdrop)

def onto (i : Intake) : Intake :=
  ⟨i.parser.onto b, i.failure.map (Diagnostic.relocate b.relocation)⟩

/-- On a backdrop a parser that is fed comes to what it comes to without. -/
theorem feed_onto (ts : List Token) (i : Intake) :
    sink.feed (i.onto b) (ts.map (Token.relocate b.relocation)) = (sink.feed i ts).onto b := by
  induction ts generalizing i with
  | nil => rfl
  | cons t ts ih =>
    obtain ⟨p, d⟩ := i
    cases d with
    | some d => rfl
    | none =>
      show sink.feed ⟨((p.onto b).push (t.relocate b.relocation)).1,
        ((p.onto b).push (t.relocate b.relocation)).2⟩ _ = _
      rw [Parser.push_onto]
      exact ih ⟨(p.push t).1, (p.push t).2⟩

/-- On a backdrop without reports, the result is that of the run without it. -/
theorem conclude_onto (h : b.diagnostics = []) (i : Intake) :
    (i.onto b).conclude.2 = b.result i.conclude.2 := by
  obtain ⟨p, d⟩ := i
  cases d with
  | some d => rfl
  | none =>
    have hfinish := Parser.finish_onto b p
    have hreports : (p.onto b).finish.1.diagnostics
        = p.finish.1.diagnostics.map (Diagnostic.relocate b.relocation) := by
      rw [Parser.finish_diagnostics, Parser.finish_diagnostics, Parser.onto, h, List.nil_append]
    unfold conclude onto
    dsimp only [Option.map_none]
    rw [hreports]
    cases p.finish.1.diagnostics with
    | nil => exact hfinish
    | cons d ds => rfl

/-- A parser that is fed the same tokens in another place comes to the same result there. -/
theorem conclude_relocate (r : Relocation) (ts : List Token) :
    (sink.feed start (ts.map (Token.relocate r))).conclude.2
      = relocateResult r (sink.feed start ts).conclude.2 := by
  have hfeed := feed_onto ⟨[], [], r⟩ ts start
  have hstart : start.onto ⟨[], [], r⟩ = start := rfl
  rw [hstart] at hfeed
  rw [hfeed, conclude_onto _ rfl]
  cases (sink.feed start ts).conclude.2 <;> rfl

end Intake

end ExprYard
