import ExprYard.Parser.Basic

/-!
# The levels of a parser

Each open parenthesis keeps the number of operands that there were when it opened, and the statement
keeps the number that there were when it began. These counts cut the operands of a parser into
layers: those of the statements before, those of the statement outside of all parentheses, and so on
up to those of the innermost group. `Layered` says that the cuts are in order and lie within the
operands, so `floor` is the highest of them. It is the invariant behind all that bounds what a
parser may fold.
-/

namespace ExprYard

/-- The operand count that a marker keeps, if it is an open parenthesis. -/
def Marker.count? : Marker → Option Nat
  | .paren _ operands => some operands
  | .operator .. | .call _ | .letWord _ => none

namespace Parser

/-- The operand counts of the open parentheses, the latest first. -/
def counts (p : Parser) : List Nat :=
  p.pending.filterMap Marker.count?

/-- The operands lie in layers, one upon the other. -/
structure Layered (p : Parser) : Prop where
  /-- From the first open parenthesis to the latest the counts do not decrease. -/
  ordered : p.counts.reverse.Pairwise (· ≤ ·)
  /-- No parenthesis opened before the statement began. -/
  statement : ∀ n ∈ p.counts, p.statementStart ≤ n
  /-- No parenthesis keeps more operands than there are. -/
  operands : ∀ n ∈ p.counts, n ≤ p.operands.length
  start : p.statementStart ≤ p.operands.length

variable {p q : Parser}

theorem layered_empty : empty.Layered where
  ordered := .nil
  statement := fun _ hn => nomatch hn
  operands := fun _ hn => nomatch hn
  start := Nat.le_refl 0

/-- The floor is the count of the latest open parenthesis, or else that of the statement. -/
theorem floor_eq_head (p : Parser) : p.floor = p.counts.head?.getD p.statementStart := by
  suffices h : ∀ ms : List Marker,
      floor.go p ms = (ms.filterMap Marker.count?).head?.getD p.statementStart from h p.pending
  intro ms
  induction ms with
  | nil => rfl
  | cons m ms ih =>
    cases m with
    | paren t n => rfl
    | operator | call | letWord => exact ih

theorem floor_eq_of_counts (hc : q.counts = p.counts) (hs : q.statementStart = p.statementStart) :
    q.floor = p.floor := by
  rw [floor_eq_head, floor_eq_head, hc, hs]

namespace Layered

theorem le_floor (h : p.Layered) : ∀ n ∈ p.counts, n ≤ p.floor := by
  intro n hn
  have hordered := List.pairwise_reverse.mp h.ordered
  rw [floor_eq_head]
  cases hc : p.counts with
  | nil =>
    rw [hc] at hn
    cases hn
  | cons k ks =>
    rw [hc] at hn hordered
    rcases List.mem_cons.mp hn with rfl | hn
    · exact Nat.le_refl n
    · exact (List.pairwise_cons.mp hordered).1 n hn

theorem start_le_floor (h : p.Layered) : p.statementStart ≤ p.floor := by
  rw [floor_eq_head]
  cases hc : p.counts with
  | nil => exact Nat.le_refl _
  | cons k ks => exact h.statement k (hc ▸ List.mem_cons_self)

/-- The floor lies within the operands. -/
theorem floor_le (h : p.Layered) : p.floor ≤ p.operands.length := by
  rw [floor_eq_head]
  cases hc : p.counts with
  | nil => exact h.start
  | cons k ks => exact h.operands k (hc ▸ List.mem_cons_self)

/-- The latest open parenthesis keeps no more operands than there are. -/
theorem count_le {t : Token} {n : Nat} {ms : List Marker} (h : p.Layered)
    (hp : p.pending = .paren t n :: ms) : n ≤ p.operands.length := by
  refine h.operands n ?_
  rw [counts, hp]
  exact List.mem_cons_self

/-- What happens above the floor leaves the layers in order. -/
theorem above (h : p.Layered) (hc : q.counts = p.counts)
    (hs : q.statementStart = p.statementStart) (hl : p.floor ≤ q.operands.length) :
    q.Layered where
  ordered := hc ▸ h.ordered
  statement := by
    rw [hc, hs]
    exact h.statement
  operands := by
    rw [hc]
    exact fun n hn => Nat.le_trans (h.le_floor n hn) hl
  start := by
    rw [hs]
    exact Nat.le_trans h.start_le_floor hl

/-- A parenthesis that opens begins a layer above all operands. -/
theorem enter (h : p.Layered) (t : Token) : (p.await (.paren t p.operands.length)).Layered where
  ordered := by
    refine List.pairwise_reverse.mpr (List.pairwise_cons.mpr ⟨h.operands, ?_⟩)
    exact List.pairwise_reverse.mp h.ordered
  statement := List.forall_mem_cons.mpr ⟨h.start, h.statement⟩
  operands := List.forall_mem_cons.mpr ⟨Nat.le_refl _, h.operands⟩
  start := h.start

/-- A parenthesis that is no longer open gives its layer to the one below. -/
theorem leave {t : Token} {n : Nat} {ms : List Marker} {xs : List Tree} (h : p.Layered)
    (hp : p.pending = .paren t n :: ms) (hn : n ≤ xs.length) :
    ({ p with operands := xs, pending := ms } : Parser).Layered := by
  have hc : p.counts = n :: ms.filterMap Marker.count? := by
    rw [counts, hp]
    rfl
  have hordered := List.pairwise_reverse.mp h.ordered
  rw [hc] at hordered
  obtain ⟨hbelow, hrest⟩ := List.pairwise_cons.mp hordered
  have hmem : ∀ k ∈ ms.filterMap Marker.count?, k ∈ p.counts := by
    intro k hk
    rw [hc]
    exact List.mem_cons_of_mem n hk
  refine ⟨List.pairwise_reverse.mpr hrest, ?_, ?_, ?_⟩
  · exact fun k hk => h.statement k (hmem k hk)
  · exact fun k hk => Nat.le_trans (hbelow k hk) hn
  · exact Nat.le_trans (h.statement n (hc ▸ List.mem_cons_self)) hn

/-- Without a parenthesis open, a statement may begin above all operands. -/
theorem begins (hp : p.counts = []) :
    ({ p with statementStart := p.operands.length } : Parser).Layered := by
  have hc : ({ p with statementStart := p.operands.length } : Parser).counts = [] := hp
  refine ⟨?_, ?_, ?_, Nat.le_refl _⟩
  · rw [hc]
    exact .nil
  · rw [hc]
    exact fun n hn => nomatch hn
  · rw [hc]
    exact fun n hn => nomatch hn

end Layered

end Parser

end ExprYard
