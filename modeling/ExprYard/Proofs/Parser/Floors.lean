import ExprYard.Proofs.Parser.Requests
import Mathlib.Logic.Relation

/-!
# What lies below the floor

A parser does all its work above the floor: whatever it is asked for, and whether that fails or not,
the trees below stay as they are, and in their places. The two facts behind this are that a fold
takes its operands from above the floor and leaves the floor where it is (`Reduces.keeps_below`),
and that a group that ends has its operands above the count of its parenthesis, which was the floor
until then (`Leaves.keeps_below`).

The trees of a finished statement are below the floor for good, since the count of the statement
only grows until the trees are handed over (`Finished`).
-/

namespace ExprYard

namespace Parser

variable {p q : Parser} {t : Token} {base : List Tree}

/-- The second parser has the earliest `n` trees of the first, as they were. -/
def Retains (n : Nat) (p q : Parser) : Prop :=
  q.trees.take n = p.trees.take n

theorem retains_of_suffix (hp : base <:+ p.operands) (hq : base <:+ q.operands) :
    Retains base.length p q := by
  have take_trees : ∀ r : Parser, base <:+ r.operands →
      r.trees.take base.length = base.reverse := by
    rintro r ⟨above, hr⟩
    rw [trees, ← hr, List.reverse_append]
    exact List.take_left' List.length_reverse
  unfold Retains
  rw [take_trees p hp, take_trees q hq]

/-! ## One step -/

theorem Reduces.keeps_below (h : Reduces p q) (hb : base <:+ p.operands)
    (hl : base.length ≤ p.floor) : base <:+ q.operands := by
  cases h with
  | fold pending folded operands demand reach =>
    rw [operands] at hb
    have hrest := List.suffix_of_suffix_length_le hb (List.suffix_append _ _)
      (Nat.le_trans hl reach)
    exact hrest.trans (List.suffix_cons _ _)

theorem Leaves.keeps_below {n : Nat} {xs rest : List Tree} {x : Tree} (h : Leaves t n xs x rest)
    (hb : base <:+ xs) (hl : base.length ≤ n) : base <:+ rest := by
  cases h with
  | full h => exact List.suffix_of_suffix_length_le hb (List.suffix_cons _ _) (Nat.le_trans hl h)
  | empty => exact hb

theorem floor_of_paren {opening : Token} {n : Nat} {ms : List Marker}
    (hp : p.pending = .paren opening n :: ms) : p.floor = n := by
  unfold floor
  rw [hp]
  rfl

theorem Ends.operands {o : Outcome} (h : Ends p o) : o.1.operands = p.operands := by
  cases h with
  | done | unclosed => rfl

theorem Arrives.keeps_below {o : Outcome} (h : Arrives t p o) (hb : base <:+ p.operands)
    (hl : base.length ≤ p.floor) : base <:+ o.1.operands := by
  cases h with
  | unread | lexical | refused | marker | unopened => exact hb
  | operand => exact hb.trans (List.suffix_cons _ _)
  | value _ pending _ group =>
    rw [floor_of_paren pending] at hl
    exact (group.keeps_below hb hl).trans (List.suffix_cons _ _)
  | argument _ pending group | unreached _ pending group =>
    rw [floor_of_paren pending] at hl
    exact (group.keeps_below hb hl).trans (List.suffix_cons _ _)
  | semicolon _ h =>
    rw [h.operands]
    exact hb

/-- A walk whose end keeps what is below the floor keeps it all the way. -/
theorem Walks.keeps_below {End : Parser → Outcome → Prop} {o : Outcome} (hw : Walks End p o)
    (hb : base <:+ p.operands) (hl : base.length ≤ p.floor)
    (hend : ∀ {q : Parser} {o : Outcome}, End q o → base <:+ q.operands → base.length ≤ q.floor →
      base <:+ o.1.operands) : base <:+ o.1.operands := by
  refine hw.keeps (I := fun q => base <:+ q.operands ∧ base.length ≤ q.floor)
    (J := fun o => base <:+ o.1.operands) ⟨hb, hl⟩ ?_ ?_ ?_
  · intro p q h hp
    exact ⟨h.keeps_below hp.1 hp.2, h.floor ▸ hp.2⟩
  · intro q o h hq
    exact hend h hq.1 hq.2
  · intro q m ms _ _ hq
    exact hq.1

theorem push_keeps_below (t : Token) (hb : base <:+ p.operands)
    (hl : base.length ≤ p.floor) : base <:+ (p.push t).1.operands :=
  (push_walks t p).keeps_below hb hl fun he hb hl => he.keeps_below hb hl

theorem drain_keeps_below (hb : base <:+ p.operands) (hl : base.length ≤ p.floor) :
    base <:+ p.drain.1.operands := by
  refine (drain_walks p).keeps_below hb hl fun he hb _ => ?_
  rw [he.operands]
  exact hb

/-! ## Statements that have ended -/

/-- The count of a statement grows when the statement ends. -/
theorem Ends.start_le {o : Outcome} (h : Ends p o) (hp : p.Layered) :
    p.statementStart ≤ o.1.statementStart := by
  cases h with
  | done => exact hp.start
  | unclosed => exact Nat.le_refl _

theorem Arrives.start_le {o : Outcome} (h : Arrives t p o) (hp : p.Layered) :
    p.statementStart ≤ o.1.statementStart := by
  cases h with
  | semicolon _ h => exact h.start_le hp
  | unread | lexical | refused | operand | marker | value | argument | unreached | unopened =>
    exact Nat.le_refl _

/-- A walk whose end does not lower the count of the statement does not lower it. -/
theorem Walks.start_le {End : Parser → Outcome → Prop} {o : Outcome} (hw : Walks End p o)
    (hp : p.Layered) (hend : ∀ {q : Parser} {o : Outcome}, End q o → q.Layered →
      q.statementStart ≤ o.1.statementStart) : p.statementStart ≤ o.1.statementStart := by
  refine hw.keeps (I := fun q => q.Layered ∧ p.statementStart ≤ q.statementStart)
    (J := fun o => p.statementStart ≤ o.1.statementStart) ⟨hp, Nat.le_refl _⟩ ?_ ?_ ?_
  · intro q r h hq
    exact ⟨h.layered hq.1, h.statementStart ▸ hq.2⟩
  · intro q o h hq
    exact Nat.le_trans hq.2 (hend h hq.1)
  · intro q m ms _ _ hq
    exact hq.2

/-- The parser has finished trees, the latest first, at the bottom and outside of its statement. -/
structure Finished (base : List Tree) (p : Parser) : Prop where
  layered : p.Layered
  below : base <:+ p.operands
  start : base.length ≤ p.statementStart

namespace Finished

theorem le_floor (h : Finished base p) : base.length ≤ p.floor :=
  Nat.le_trans h.start h.layered.start_le_floor

theorem push (h : Finished base p) (t : Token) : Finished base (p.push t).1 where
  layered := h.layered.push t
  below := push_keeps_below t h.below h.le_floor
  start := Nat.le_trans h.start
    ((push_walks t p).start_le h.layered fun he hl => he.start_le hl)

theorem drain (h : Finished base p) : Finished base p.drain.1 where
  layered := h.layered.drain
  below := drain_keeps_below h.below h.le_floor
  start := Nat.le_trans h.start
    ((drain_walks p).start_le h.layered fun he hl => he.start_le hl)

/-- A statement that has ended leaves only finished trees. -/
theorem of_drain (h : p.Layered) (hq : p.drain = (q, none)) : Finished q.operands q := by
  have hl := h.drain
  rw [hq] at hl
  exact ⟨hl, List.suffix_rfl, (Parser.of_drain hq).2 ▸ Nat.le_refl _⟩

end Finished

/-- A request after which a parser still has its trees: any token, or to finish and to fail at
that. -/
inductive Continues : Parser → Parser → Prop where
  | push {p : Parser} (t : Token) : Continues p (p.push t).1
  | finish {p : Parser} {d : Diagnostic} (h : p.finish.2 = .error d) : Continues p p.finish.1

theorem Finished.continues (h : Finished base p) (hq : Continues p q) : Finished base q := by
  cases hq with
  | push t => exact h.push t
  | finish hd =>
    have hdrain := h.drain
    rcases finish_cases p with ⟨r, -, hr⟩ | ⟨r, d, hr, hfinish⟩
    · rw [hr] at hd
      cases hd
    · rw [hr] at hdrain
      rw [hfinish]
      exact hdrain

/-- Finished trees come first among the trees that are handed over. -/
theorem Finished.prefix_of_finish (h : Finished base p) {trees : List Tree}
    (ht : p.finish.2 = .ok trees) : base.reverse <+: trees := by
  have hdrain := h.drain
  rcases finish_cases p with ⟨r, hr, hfinish⟩ | ⟨r, d, -, hfinish⟩
  · rw [hfinish] at ht
    cases ht
    rw [hr] at hdrain
    exact List.reverse_prefix.mpr hdrain.below
  · rw [hfinish] at ht
    cases ht

/-- What a parser that has been asked for something leaves as it was. -/
structure KeepsBelow (p : Parser) : Prop where
  floor : p.floor ≤ p.trees.length
  /-- A token, taken in or refused, changes no tree below the floor. -/
  push : ∀ t : Token, Retains p.floor p (p.push t).1
  /-- Neither does a request to finish that fails. -/
  finish : ∀ d : Diagnostic, p.finish.2 = .error d → Retains p.floor p p.finish.1
  /-- The trees that are there when a statement has ended come first for as long as the parser has
  its trees, and first among those that it hands over. -/
  statements : ∀ (semicolon : Token) (q r : Parser), semicolon.kind = .keyword .semicolon →
    p.push semicolon = (q, none) → Relation.ReflTransGen Continues q r →
    q.trees <+: r.trees ∧ ∀ trees : List Tree, r.finish.2 = .ok trees → q.trees <+: trees

theorem Layered.exists_below (h : p.Layered) :
    ∃ base : List Tree, base <:+ p.operands ∧ base.length = p.floor := by
  refine ⟨p.operands.drop (p.operands.length - p.floor), List.drop_suffix _ _, ?_⟩
  have := h.floor_le
  rw [List.length_drop]
  omega

/-- Whatever a parser has been asked for, no step of it reaches below the floor, and the trees of
statements that have ended stay until they are handed over. -/
theorem below_floor_unchanged (rs : List Request) : KeepsBelow (empty.after rs) := by
  have hl := layered_after rs
  generalize empty.after rs = p at hl
  obtain ⟨base, hbase, hlen⟩ := hl.exists_below
  refine ⟨?_, ?_, ?_, ?_⟩
  · rw [trees, List.length_reverse]
    exact hl.floor_le
  · intro t
    rw [← hlen]
    exact retains_of_suffix hbase (push_keeps_below t hbase (Nat.le_of_eq hlen))
  · intro d hd
    rw [← hlen]
    have hdrain := drain_keeps_below hbase (Nat.le_of_eq hlen)
    rcases finish_cases p with ⟨r, -, hfinish⟩ | ⟨r, d', hr, hfinish⟩
    · rw [hfinish] at hd
      cases hd
    · rw [hr] at hdrain
      rw [hfinish]
      exact retains_of_suffix hbase hdrain
  · intro semicolon q r hkind hpush hcontinues
    have hdrain : p.drain = (q, none) := by
      rw [← hpush, push, hkind]
    have hfinished : Finished q.operands r := by
      induction hcontinues with
      | refl => exact .of_drain hl hdrain
      | tail _ hstep ih => exact ih.continues hstep
    exact ⟨List.reverse_prefix.mpr hfinished.below, fun trees ht => hfinished.prefix_of_finish ht⟩

end Parser

end ExprYard
