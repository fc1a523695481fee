import ExprYard.Parser.Basic
import ExprYard.Proofs.Grammar.Infix

/-!
# Operators that wait in a parser

While a parser reads a row of operands, the operators on its stack and the operands below them are
those of a `Stack`, with the prefixes of the next operand on top. `Parser.waiting` puts them there,
and the lemmas of this module say what the parser does with them: another operator folds what yields
to it, and the end of a group or of a statement folds them all. Where an operand is still awaited
the latter fails, and the token it names is that of the lowest operator, for which the folds above
it leave a single operand (`Folds.blames`).

All of this happens above a parser that has `Ground` below it: a place where folding stops.
-/

namespace ExprYard

/-! ## Operands with prefixes -/

/-- An operand and the prefixes before it, the innermost first. -/
structure Operand where
  bangs : List Token
  core : Tree

namespace Operand

/-- The operand with its prefixes applied. -/
def tree (o : Operand) : Tree :=
  o.bangs.foldl (fun x b => .branch b [x]) o.core

/-- The operand with more prefixes around it. -/
def wrap (bs : List Token) (o : Operand) : Operand :=
  ⟨o.bangs ++ bs, o.core⟩

end Operand

/-- A marker at which folding stops, and that takes no group for its argument. -/
def Marker.isGround : Marker → Bool
  | .paren .. | .letWord .. => true
  | .operator .. | .call .. => false

namespace Parser

/-! ## Places -/

/-- A parser with nothing to fold: its operands are out of reach, and its latest marker is none that
takes operands of an expression. -/
structure Ground (p : Parser) : Prop where
  floor : p.floor = p.operands.length
  top : ∀ m ∈ p.pending.head?, Marker.isGround m = true

/-- The parser with the operators of a stack waiting, and their left operands. -/
def stacked (st : Stack) (p : Parser) : Parser :=
  { p with
    operands := st.map Prod.fst ++ p.operands
    pending := st.map (fun x => .operator x.2.token x.2.binding) ++ p.pending }

/-- The parser with prefixes waiting. -/
def prefixed (bs : List Token) (p : Parser) : Parser :=
  { p with pending := bs.map (.operator · Operator.not.binding) ++ p.pending }

/-- The parser with a stack and prefixes waiting for an operand. -/
def waiting (st : Stack) (bs : List Token) (p : Parser) : Parser :=
  (p.stacked st).prefixed bs

/-- The parser after an operand, whose prefixes still wait. -/
def shifted (o : Operand) (p : Parser) : Parser :=
  (p.prefixed o.bangs).shift o.core

variable {p q : Parser}

theorem shifted_wrap (bs : List Token) (o : Operand) (p : Parser) :
    p.shifted (o.wrap bs) = (p.prefixed bs).shifted o := by
  simp [shifted, prefixed, Operand.wrap, shift]

theorem floor_go_operators (p : Parser) (ms : List Marker) {ops : List Marker}
    (h : ∀ m ∈ ops, ∃ t b, m = .operator t b) : floor.go p (ops ++ ms) = floor.go p ms := by
  induction ops with
  | nil => rfl
  | cons m ops ih =>
    obtain ⟨t, b, rfl⟩ := h m List.mem_cons_self
    exact ih fun n hn => h n (List.mem_cons_of_mem _ hn)

theorem floor_congr {ms : List Marker} (h : p.statementStart = q.statementStart) :
    floor.go p ms = floor.go q ms := by
  induction ms with
  | nil => exact h
  | cons m ms ih =>
    cases m with
    | paren => rfl
    | operator | call | letWord => exact ih

/-- Waiting operators do not put any operands out of reach. -/
theorem floor_stacked (st : Stack) (p : Parser) : (p.stacked st).floor = p.floor := by
  unfold floor stacked
  rw [floor_go_operators]
  · exact floor_congr rfl
  · intro m hm
    obtain ⟨x, -, rfl⟩ := List.mem_map.mp hm
    exact ⟨_, _, rfl⟩

theorem floor_prefixed (bs : List Token) (p : Parser) : (p.prefixed bs).floor = p.floor := by
  unfold floor prefixed
  rw [floor_go_operators]
  · exact floor_congr rfl
  · intro m hm
    obtain ⟨b, -, rfl⟩ := List.mem_map.mp hm
    exact ⟨_, _, rfl⟩

theorem floor_shift (x : Tree) (p : Parser) : (p.shift x).floor = p.floor :=
  floor_congr rfl

theorem length_operands_stacked (st : Stack) (p : Parser) :
    (p.stacked st).operands.length = st.length + p.operands.length := by
  simp [stacked]

theorem floor_stacked_le (h : p.floor ≤ p.operands.length) (st : Stack) :
    (p.stacked st).floor ≤ (p.stacked st).operands.length := by
  rw [floor_stacked, length_operands_stacked]
  omega

/-- An operator on top of a stack does not put any operands out of reach. -/
theorem floor_await_stacked_le (h : p.floor ≤ p.operands.length) (st : Stack) (t : Token)
    (b : Binding) : ((p.stacked st).await (.operator t b)).floor
      ≤ ((p.stacked st).await (.operator t b)).operands.length := by
  rw [show ((p.stacked st).await (.operator t b)).floor = (p.stacked st).floor from
    floor_congr rfl]
  exact floor_stacked_le h st

/-! ## Folding -/

theorem fold_shift (t : Token) (x : Tree) (h : p.floor ≤ p.operands.length) :
    (p.shift x).fold t 1 = (p.shift (.branch t [x]), none) := by
  have ha : ¬ (p.shift x).available < 1 := by
    unfold available
    rw [floor_shift]
    show ¬ p.operands.length + 1 - p.floor < 1
    omega
  unfold fold
  rw [if_neg ha]
  rfl

theorem fold_shift_shift (t : Token) (l x : Tree) (h : p.floor ≤ p.operands.length) :
    ((p.shift l).shift x).fold t 2 = (p.shift (.branch t [l, x]), none) := by
  have ha : ¬ ((p.shift l).shift x).available < 2 := by
    unfold available
    rw [floor_shift, floor_shift]
    show ¬ p.operands.length + 1 + 1 - p.floor < 2
    omega
  unfold fold
  rw [if_neg ha]
  rfl

theorem fold_missing {t : Token} {count : Nat} (h : p.available < count) :
    p.fold t count = (p, some (missing t)) := by
  unfold fold
  rw [if_pos h]

/-- A walk over markers that folds the operators it meets, one after the other. -/
def Folds (go : List Marker → Parser → Outcome) : Prop :=
  ∀ token binding pending p, go (.operator token binding :: pending) p
    = match fold token binding.arity.operands { p with pending } with
      | (p, none) => go pending p
      | failure => failure

theorem folds_endGroup (closing : Token) : Folds (endGroup.go closing) :=
  fun _ _ _ _ => rfl

theorem folds_drain : Folds drain.go :=
  fun _ _ _ _ => rfl

/-- The token that lacks an operand where operators and prefixes wait for one: the lowest operator,
or the latest prefix where no operator waits. -/
def blamed (bs : List Token) : Stack → Option Token
  | [] => bs.head?
  | (_, b) :: st => some (Stack.lowest b st).token

theorem exists_blamed {st : Stack} {bs : List Token} (h : bs ≠ [] ∨ st ≠ []) :
    ∃ t, blamed bs st = some t := by
  cases st with
  | nil =>
    obtain ⟨b, bs, rfl⟩ := List.exists_cons_of_ne_nil (h.resolve_right fun hn => hn rfl)
    exact ⟨b, rfl⟩
  | cons x st => exact ⟨_, rfl⟩

namespace Folds

variable {go : List Marker → Parser → Outcome}

/-- A walk applies the prefixes of an operand. -/
theorem prefixed (h : Folds go) (hp : p.floor ≤ p.operands.length) :
    ∀ (bs : List Token) (x : Tree), go (p.shifted ⟨bs, x⟩).pending (p.shifted ⟨bs, x⟩)
      = go p.pending (p.shift (Operand.tree ⟨bs, x⟩)) := by
  intro bs
  induction bs with
  | nil =>
    intro x
    rfl
  | cons b bs ih =>
    intro x
    have hfold := fold_shift b x (p := p.prefixed bs) (by rw [floor_prefixed]; exact hp)
    have hstep := h b Operator.not.binding (p.prefixed bs).pending (p.shifted ⟨b :: bs, x⟩)
    rw [show fold b Operator.not.binding.arity.operands
      { p.shifted ⟨b :: bs, x⟩ with pending := (p.prefixed bs).pending } = _ from hfold] at hstep
    exact hstep.trans (ih (.branch b [x]))

/-- A walk folds the operators of a stack. -/
theorem stacked (h : Folds go) (hq : q.floor ≤ q.operands.length) :
    ∀ (st : Stack) (x : Tree), go ((q.stacked st).shift x).pending ((q.stacked st).shift x)
      = go q.pending (q.shift (st.collapse x)) := by
  intro st
  induction st with
  | nil =>
    intro x
    rfl
  | cons y st ih =>
    intro x
    obtain ⟨l, b⟩ := y
    have hfold := fold_shift_shift b.token l x (floor_stacked_le hq st)
    have hstep := h b.token b.binding (q.stacked st).pending ((q.stacked ((l, b) :: st)).shift x)
    rw [b.arity, show fold b.token Arity.binary.operands
      { (q.stacked ((l, b) :: st)).shift x with pending := (q.stacked st).pending } = _
        from hfold] at hstep
    exact hstep.trans (ih (.branch b.token [l, x]))

/-- A walk over a row of operands finds the row's last tree. -/
theorem shifted (h : Folds go) (hq : q.floor ≤ q.operands.length) (st : Stack) (o : Operand) :
    go ((q.stacked st).shifted o).pending ((q.stacked st).shifted o)
      = go q.pending (q.shift (st.collapse o.tree)) := by
  rw [← h.stacked hq]
  exact h.prefixed (floor_stacked_le hq st) o.bangs o.core

/-- A walk that meets operators with one operand too few folds all but the lowest. -/
theorem lowest (h : Folds go) (hq : q.floor = q.operands.length) :
    ∀ (st : Stack) (x : Tree) (b : Link), ∃ r,
      go (q.stacked ((x, b) :: st)).pending (q.stacked ((x, b) :: st))
        = (r, some (missing (Stack.lowest b st).token)) := by
  intro st
  induction st with
  | nil =>
    intro x b
    have hshort : available (q.shift x) < b.binding.arity.operands := by
      unfold available
      rw [floor_shift, hq, b.arity]
      show q.operands.length + 1 - q.operands.length < 2
      omega
    have hstep := h b.token b.binding q.pending (q.stacked [(x, b)])
    rw [show fold b.token b.binding.arity.operands
      { q.stacked [(x, b)] with pending := q.pending } = _ from fold_missing hshort] at hstep
    exact ⟨_, hstep⟩
  | cons y st ih =>
    intro x b
    obtain ⟨l, c⟩ := y
    have hreach := floor_await_stacked_le (Nat.le_of_eq hq) st c.token c.binding
    have hfold := fold_shift_shift b.token l x hreach
    have hstep := h b.token b.binding (q.stacked ((l, c) :: st)).pending
      (q.stacked ((x, b) :: (l, c) :: st))
    rw [b.arity, show fold b.token Arity.binary.operands
      { q.stacked ((x, b) :: (l, c) :: st) with
        pending := (q.stacked ((l, c) :: st)).pending } = _ from hfold] at hstep
    obtain ⟨r, hr⟩ := ih (.branch b.token [l, x]) c
    exact ⟨r, hstep.trans hr⟩

/-- A walk that meets operators and no operand behind the latest of them fails. The prefixes take
the left operand of the latest operator, if there is one, and each operator takes that of the one
below it. -/
theorem blames (h : Folds go) (hq : q.floor = q.operands.length) {st : Stack} {bs : List Token}
    {t : Token} (ht : blamed bs st = some t) :
    ∃ r, go (q.waiting st bs).pending (q.waiting st bs) = (r, some (Parser.missing t)) := by
  cases st with
  | nil =>
    cases bs with
    | nil => cases ht
    | cons b bs =>
      cases ht
      have hshort : available (q.prefixed bs) < Operator.not.binding.arity.operands := by
        unfold available
        rw [floor_prefixed, hq]
        show q.operands.length - q.operands.length < 1
        omega
      have hstep := h t Operator.not.binding (q.prefixed bs).pending (q.waiting [] (t :: bs))
      rw [show fold t Operator.not.binding.arity.operands
        { q.waiting [] (t :: bs) with pending := (q.prefixed bs).pending } = _
          from fold_missing hshort] at hstep
      exact ⟨_, hstep⟩
  | cons y st =>
    obtain ⟨l, c⟩ := y
    cases ht
    have hreach := floor_await_stacked_le (Nat.le_of_eq hq) st c.token c.binding
    obtain ⟨r, hr⟩ := h.lowest hq st (Operand.tree ⟨bs, l⟩) c
    exact ⟨r, (h.prefixed hreach bs l).trans hr⟩

end Folds

/-! ## Another operator -/

/-- Prefixes are folded before any operator between operands. -/
theorem not_foldsBefore (b : Link) : Operator.not.binding.foldsBefore b.binding = true := by
  obtain ⟨t, binding, bound, arity⟩ := b
  dsimp only
  cases hk : t.kind with
  | operator op =>
    rw [hk] at bound
    cases bound
    cases op <;> first | rfl | cases arity
  | keyword word =>
    rw [hk] at bound
    cases word <;> cases bound <;> rfl
  | _ =>
    rw [hk] at bound
    cases bound

theorem foldBefore_prefixed (b : Link) (hp : p.floor ≤ p.operands.length) :
    ∀ (bs : List Token) (x : Tree),
      foldBefore.go b.binding (p.shifted ⟨bs, x⟩).pending (p.shifted ⟨bs, x⟩)
        = foldBefore.go b.binding p.pending (p.shift (Operand.tree ⟨bs, x⟩)) := by
  intro bs
  induction bs with
  | nil =>
    intro x
    rfl
  | cons c bs ih =>
    intro x
    have hfold := fold_shift c x (p := p.prefixed bs) (by rw [floor_prefixed]; exact hp)
    show foldBefore.go b.binding (.operator c Operator.not.binding :: (p.prefixed bs).pending)
      (p.shifted ⟨c :: bs, x⟩) = _
    rw [foldBefore.go, if_pos (not_foldsBefore b),
      show fold c Operator.not.binding.arity.operands
        { p.shifted ⟨c :: bs, x⟩ with pending := (p.prefixed bs).pending } = _ from hfold]
    exact ih (.branch c [x])

theorem foldBefore_stacked (b : Link) (hq : q.Ground) :
    ∀ (st : Stack) (x : Tree),
      foldBefore.go b.binding ((q.stacked st).shift x).pending ((q.stacked st).shift x)
        = ((q.stacked (st.yield b x).1).shift (st.yield b x).2, none) := by
  intro st
  induction st with
  | nil =>
    intro x
    show foldBefore.go b.binding q.pending (q.shift x) = (q.shift x, none)
    have htop := hq.top
    cases hm : q.pending with
    | nil => rfl
    | cons m ms =>
      rw [hm] at htop
      have hground := htop m rfl
      cases m with
      | paren | letWord => rfl
      | operator | call => cases hground
  | cons y st ih =>
    intro x
    obtain ⟨l, c⟩ := y
    show foldBefore.go b.binding (.operator c.token c.binding :: (q.stacked st).pending)
      ((q.stacked ((l, c) :: st)).shift x) = _
    unfold Stack.yield
    rw [foldBefore.go]
    by_cases hc : c.binding.foldsBefore b.binding = true
    · have hfold := fold_shift_shift c.token l x (floor_stacked_le (Nat.le_of_eq hq.floor) st)
      rw [if_pos hc, if_pos hc, c.arity, show fold c.token Arity.binary.operands
        { (q.stacked ((l, c) :: st)).shift x with pending := (q.stacked st).pending } = _
          from hfold]
      exact ih (.branch c.token [l, x])
    · rw [if_neg hc, if_neg hc]

/-- Tokens that are folded with operands are operators to a parser. -/
theorem push_of_binding {t : Token} {binding : Binding} (h : t.kind.binding = some binding)
    (p : Parser) : p.push t = p.pushOperator t binding := by
  unfold push
  cases hk : t.kind with
  | operator op =>
    rw [hk] at h
    cases h
    rfl
  | keyword word =>
    rw [hk] at h
    cases word <;> cases h <;> rfl
  | _ =>
    rw [hk] at h
    cases h

/-- An operator behind an operand folds what yields to it and waits. -/
theorem push_link (b : Link) (hq : q.Ground) (st : Stack) (o : Operand) :
    ((q.stacked st).shifted o).push b.token
      = (q.stacked (((st.yield b o.tree).2, b) :: (st.yield b o.tree).1), none) := by
  have hp := floor_stacked_le (Nat.le_of_eq hq.floor) st
  have hfold : ((q.stacked st).shifted o).foldBefore b.binding
      = ((q.stacked (st.yield b o.tree).1).shift (st.yield b o.tree).2, none) :=
    (foldBefore_prefixed b hp o.bangs o.core).trans (foldBefore_stacked b hq st o.tree)
  rw [push_of_binding b.bound, pushOperator, b.arity]
  dsimp only
  rw [hfold]
  rfl

end Parser

end ExprYard
