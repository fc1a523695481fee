import ExprYard.Proofs.Parser.Requests
import Mathlib.Data.List.Chain

/-!
# The operators that wait ascend

An operator between operands is added above another only if that one is not folded before it. So the
operators that wait directly one above the other bind tighter and tighter from the lowest up, and the
prefixes among them are above all others: `OperatorsAscend`. Folding them from the latest down is
therefore folding them from the tightest to the loosest.

It holds however a parser was asked (`operators_ascend`). A request takes markers away from the top
only, also when it fails half-way, and adds at most one, above a marker that lets it. `Ascends` is
the part of the law that each marker can be held to, one step at a time; what it says of whole rows
follows from the bindings that there are (`Binding.lower_of_not_foldsBefore`).
-/

namespace ExprYard

/-! ## Bindings -/

/-- A token that is bound like an operator is a prefix, the sign of a declaration, or associates to
the left and is neither looser than that sign nor tighter than a prefix. -/
theorem Kind.binding_cases {k : Kind} {b : Binding} (h : k.binding = some b) :
    (k = .operator .not ∧ b = ⟨15, .right, .unary⟩) ∨
    (k = .keyword .assign ∧ b = ⟨0, .right, .binary⟩) ∨
    (b.associativity = .left ∧ b.arity = .binary ∧ 0 < b.precedence ∧ b.precedence ≤ 15) := by
  cases k with
  | operator op =>
    cases h
    cases op <;> first | exact .inl ⟨rfl, rfl⟩ | exact .inr (.inr (by decide))
  | keyword word =>
    cases word with
    | assign =>
      cases h
      exact .inr (.inl ⟨rfl, rfl⟩)
    | comma | typeSeparator =>
      cases h
      exact .inr (.inr (by decide))
    | semicolon | letWord => cases h
  | _ => cases h

theorem Kind.arity_of_not {b : Binding} (h : (Kind.operator .not).binding = some b) :
    b.arity = .unary := by
  cases h
  rfl

theorem Kind.precedence_of_assign {b : Binding} (h : (Kind.keyword .assign).binding = some b) :
    b.precedence = 0 := by
  cases h
  rfl

/-- The lower of two operators, as their tokens are bound. -/
def Lower (lower upper : Token × Binding) : Prop :=
  lower.2.precedence < upper.2.precedence ∨
    (lower.1.kind = .keyword .assign ∧ upper.1.kind = .keyword .assign)

/-- What is not folded before an operator between operands is one as well, and the lower of the
two. -/
theorem Binding.lower_of_not_foldsBefore {lower upper : Token × Binding}
    (hl : lower.1.kind.binding = some lower.2) (hu : upper.1.kind.binding = some upper.2)
    (ha : upper.2.arity = .binary) (h : lower.2.foldsBefore upper.2 = false) :
    lower.2.arity = .binary ∧ Lower lower upper := by
  unfold Binding.foldsBefore at h
  rcases Kind.binding_cases hu with ⟨-, hb⟩ | ⟨hk, hb⟩ | ⟨hleft, -, -, htight⟩
  · rw [hb] at ha
    cases ha
  · -- Above the sign of a declaration only what is as loose may be left to wait.
    rw [hb] at h
    have hloose : lower.2.precedence = 0 := by simpa using h
    rcases Kind.binding_cases hl with ⟨-, hc⟩ | ⟨hk', hc⟩ | ⟨-, -, hpos, -⟩
    · rw [hc] at hloose
      cases hloose
    · exact ⟨by rw [hc], .inr ⟨hk', hk⟩⟩
    · omega
  · rw [hleft] at h
    have hlt : lower.2.precedence < upper.2.precedence := by simpa using h
    refine ⟨?_, .inl hlt⟩
    rcases Kind.binding_cases hl with ⟨-, hc⟩ | ⟨-, hc⟩ | ⟨-, harity, -⟩
    · rw [hc] at hlt
      exact absurd htight (Nat.not_le_of_lt hlt)
    · rw [hc]
    · exact harity

theorem Lower.trans {x y z : Token × Binding} (hx : x.1.kind.binding = some x.2)
    (hy : y.1.kind.binding = some y.2) (hxy : Lower x y) (hyz : Lower y z) : Lower x z := by
  have assign : ∀ w : Token × Binding, w.1.kind.binding = some w.2 →
      w.1.kind = .keyword .assign → w.2.precedence = 0 := by
    intro w hw hk
    rw [hk] at hw
    exact Kind.precedence_of_assign hw
  rcases hxy with hxy | ⟨hxk, hyk⟩
  · rcases hyz with hyz | ⟨hyk, -⟩
    · exact .inl (Nat.lt_trans hxy hyz)
    · rw [assign y hy hyk] at hxy
      exact absurd hxy (Nat.not_lt_zero _)
  · rcases hyz with hyz | ⟨-, hzk⟩
    · rw [assign y hy hyk] at hyz
      refine .inl ?_
      rw [assign x hx hxk]
      exact hyz
    · exact .inr ⟨hxk, hzk⟩

/-! ## Markers -/

namespace Marker

/-- What may wait directly below a marker: below an operator between operands, no operator that is
folded before it. -/
def Over : Marker → Marker → Prop
  | operator _ b, operator _ c => b.arity = .binary → c.foldsBefore b = false
  | _, _ => True

/-- An operator is bound as its token is. -/
def Bound : Marker → Prop
  | operator t b => t.kind.binding = some b
  | _ => True

/-- The marker of an operator. -/
def ofOperator (x : Token × Binding) : Marker :=
  operator x.1 x.2

end Marker

/-- Markers, the latest first, each of which may wait above the one before it. -/
structure Ascends (ms : List Marker) : Prop where
  chain : ms.IsChain Marker.Over
  bound : ∀ m ∈ ms, m.Bound

/-- What is left when the latest markers are gone. -/
theorem Ascends.suffix {ms ns : List Marker} (h : Ascends ms) (hs : ns <:+ ms) : Ascends ns where
  chain := h.chain.suffix hs
  bound := fun m hm => h.bound m (hs.subset hm)

/-- In a row of operators that ascend the prefixes are above all others, each of which is lower than
those above it. -/
theorem Ascends.exists_split {row : List (Token × Binding)}
    (h : Ascends (row.map Marker.ofOperator)) :
    ∃ bangs links, row = bangs ++ links ∧ (∀ x ∈ bangs, x.1.kind = .operator .not) ∧
      (∀ x ∈ links, x.2.arity = .binary) ∧
      links.Pairwise fun upper lower => Lower lower upper := by
  induction row with
  | nil => exact ⟨[], [], rfl, List.forall_mem_nil _, List.forall_mem_nil _, .nil⟩
  | cons x row ih =>
    have bound : ∀ y ∈ x :: row, y.1.kind.binding = some y.2 := fun y hy =>
      h.bound _ (List.mem_map_of_mem hy)
    obtain ⟨bangs, links, rfl, hbangs, hlinks, hlower⟩ := ih (h.suffix (List.suffix_cons _ _))
    have hx := bound x List.mem_cons_self
    cases ha : x.2.arity with
    | unary =>
      refine ⟨x :: bangs, links, rfl, List.forall_mem_cons.mpr ⟨?_, hbangs⟩, hlinks, hlower⟩
      rcases Kind.binding_cases hx with ⟨hk, -⟩ | ⟨-, hb⟩ | ⟨-, harity, -⟩
      · exact hk
      · rw [hb] at ha
        cases ha
      · rw [harity] at ha
        cases ha
    | binary =>
      have top : ∀ y ∈ (bangs ++ links).head?, y.2.arity = .binary ∧ Lower y x := by
        intro y hy
        have hyrow := List.mem_of_mem_head? hy
        refine Binding.lower_of_not_foldsBefore (bound y (List.mem_cons_of_mem x hyrow)) hx ha ?_
        refine h.chain.rel_head? (y := .ofOperator y) ?_ ha
        rw [List.head?_map, Option.mem_def.mp hy]
        rfl
      cases bangs with
      | cons y bangs =>
        -- A prefix would have been folded.
        have hy := (top y rfl).1
        have hbound := bound y (List.mem_cons_of_mem x List.mem_cons_self)
        rw [hbangs y List.mem_cons_self] at hbound
        rw [Kind.arity_of_not hbound] at hy
        cases hy
      | nil =>
        refine ⟨[], x :: links, rfl, List.forall_mem_nil _,
          List.forall_mem_cons.mpr ⟨ha, hlinks⟩, List.pairwise_cons.mpr ⟨?_, hlower⟩⟩
        cases links with
        | nil => exact List.forall_mem_nil _
        | cons y links =>
          have hy := (top y rfl).2
          refine List.forall_mem_cons.mpr ⟨hy, fun z hz => ?_⟩
          refine Lower.trans (bound z ?_) (bound y ?_) ((List.pairwise_cons.mp hlower).1 z hz) hy
          · exact List.mem_cons_of_mem x (List.mem_cons_of_mem y hz)
          · exact List.mem_cons_of_mem x List.mem_cons_self

/-! ## Requests -/

namespace Parser

variable {p q : Parser} {t : Token} {o : Outcome}

theorem Reduces.pending_suffix (h : Reduces p q) : q.pending <:+ p.pending := by
  cases h with
  | fold pending =>
    rw [pending]
    exact List.suffix_cons _ _

theorem Ends.pending_suffix (h : Ends p o) : o.1.pending <:+ p.pending := by
  cases h with
  | done => exact List.suffix_refl _
  | unclosed pending =>
    rw [pending]
    exact List.suffix_cons _ _

/-- The marker of a token may wait above those that are left when it comes. -/
theorem Awaits.ascends {m : Marker} (h : Awaits t p m) (hp : Ascends p.pending) :
    Ascends (m :: p.pending) := by
  refine ⟨hp.chain.cons ?_, List.forall_mem_cons.mpr ⟨?_, hp.bound⟩⟩
  · intro n hn
    cases h with
    | call | paren | letWord => trivial
    | operator bound top =>
      cases n with
      | operator u c => exact fun ha => top ha u c hn
      | paren | call | letWord => trivial
  · cases h with
    | call | paren | letWord => trivial
    | operator bound => exact bound

theorem Arrives.ascends (h : Arrives t p o) (hp : Ascends p.pending) : Ascends o.1.pending := by
  cases h with
  | unread | lexical | refused | operand => exact hp
  | marker h => exact h.ascends hp
  | value _ pending =>
    rw [pending] at hp
    exact hp.suffix (List.suffix_cons _ _)
  | argument _ pending | unreached _ pending =>
    rw [pending] at hp
    exact hp.suffix ((List.suffix_cons _ _).trans (List.suffix_cons _ _))
  | unopened => exact hp.suffix (List.tail_suffix _)
  | semicolon _ h => exact hp.suffix h.pending_suffix

/-- What folds on the way to an end are the latest markers, and one that cannot is lost. -/
theorem Walks.ascends {End : Parser → Outcome → Prop} (hw : Walks End p o)
    (hp : Ascends p.pending)
    (hend : ∀ {q : Parser} {o : Outcome}, End q o → Ascends q.pending → Ascends o.1.pending) :
    Ascends o.1.pending := by
  refine hw.keeps (I := fun q => Ascends q.pending) (J := fun o => Ascends o.1.pending) hp ?_ hend ?_
  · exact fun h hq => hq.suffix h.pending_suffix
  · intro q m ms pending _ hq
    rw [pending] at hq
    exact hq.suffix (List.suffix_cons _ _)

/-- The markers of a parser ascend however it was asked. -/
theorem ascends_after (rs : List Request) : Ascends (empty.after rs).pending := by
  refine after_invariant (I := fun p => Ascends p.pending) ⟨.nil, List.forall_mem_nil _⟩ ?_ rs
  intro p r hp
  have hdrain : Ascends p.drain.1.pending :=
    (drain_walks p).ascends hp fun he hq => hq.suffix he.pending_suffix
  cases r with
  | push t => exact (push_walks t p).ascends hp fun he => he.ascends
  | finish =>
    rcases finish_cases p with ⟨q, hq, hfinish⟩ | ⟨q, d, hq, hfinish⟩
    · rw [hq] at hdrain
      show Ascends p.finish.1.pending
      rw [hfinish]
      exact hdrain
    · rw [hq] at hdrain
      show Ascends p.finish.1.pending
      rw [hfinish]
      exact hdrain

/-- What the operators among some markers, the latest first, have in common. -/
structure OperatorsAscend (ms : List Marker) : Prop where
  /-- Each operator is bound as its token is. -/
  bound : ∀ x : Token × Binding, .ofOperator x ∈ ms → x.1.kind.binding = some x.2
  /-- An operator directly below one between operands is not folded before it, and is no prefix. -/
  pairs : ∀ above (upper lower : Token × Binding) below,
    ms = above ++ .ofOperator upper :: .ofOperator lower :: below → upper.2.arity = .binary →
      lower.2.foldsBefore upper.2 = false ∧ lower.1.kind ≠ .operator .not
  /-- In a row of operators the prefixes are above all others, and those bind tighter and tighter
  from the lowest up, but that a sign of a declaration may be above another. -/
  rows : ∀ above (row : List (Token × Binding)) below,
    ms = above ++ (row.map .ofOperator ++ below) →
      ∃ bangs links, row = bangs ++ links ∧ (∀ x ∈ bangs, x.1.kind = .operator .not) ∧
        (∀ x ∈ links, x.2.arity = .binary) ∧
        links.reverse.Pairwise fun lower upper =>
          lower.2.precedence < upper.2.precedence ∨
            (lower.1.kind = .keyword .assign ∧ upper.1.kind = .keyword .assign)

/-- Whatever tokens a parser was given and however often it was asked to finish, also after it has
failed, the operators that wait ascend: an operator between operands never waits directly above one
that is folded before it. So in each row of them no prefix is below an operator between operands, and
the precedences of these increase from the lowest up, but that the sign of a declaration may wait
above another one. -/
theorem operators_ascend (rs : List Request) : OperatorsAscend (empty.after rs).pending := by
  have h := ascends_after rs
  have bound : ∀ x : Token × Binding, .ofOperator x ∈ (empty.after rs).pending →
      x.1.kind.binding = some x.2 := fun x hx => h.bound _ hx
  refine ⟨bound, ?_, ?_⟩
  · intro above upper lower below heq ha
    have hpair : Ascends (.ofOperator upper :: .ofOperator lower :: below) :=
      h.suffix ⟨above, heq.symm⟩
    have hfolds : lower.2.foldsBefore upper.2 = false := hpair.chain.rel_head? rfl ha
    refine ⟨hfolds, fun hk => ?_⟩
    have hl : lower.1.kind.binding = some lower.2 :=
      hpair.bound (.ofOperator lower) (List.mem_cons_of_mem _ List.mem_cons_self)
    have harity := (Binding.lower_of_not_foldsBefore hl
      (hpair.bound _ List.mem_cons_self) ha hfolds).1
    rw [hk] at hl
    rw [Kind.arity_of_not hl] at harity
    cases harity
  · intro above row below heq
    have hrow : Ascends (row.map .ofOperator) := by
      have hbelow := h.suffix ⟨above, heq.symm⟩
      exact ⟨hbelow.chain.left_of_append, fun m hm => hbelow.bound m (List.mem_append_left _ hm)⟩
    obtain ⟨bangs, links, hsplit, hbangs, hlinks, hlower⟩ := hrow.exists_split
    exact ⟨bangs, links, hsplit, hbangs, hlinks, List.pairwise_reverse.mpr hlower⟩

/-- The sign of a declaration does wait above another one. -/
example : (empty.after [.push ⟨.keyword .assign, "=", ⟨0, 1, "shell"⟩⟩,
      .push ⟨.keyword .assign, "=", ⟨1, 2, "shell"⟩⟩]).pending.map (·.token.kind)
    = [.keyword .assign, .keyword .assign] := by
  decide

end Parser

end ExprYard
