import ExprYard.Proofs.Parser.Levels

/-!
# What a parser can do in one step

Whatever it is asked for, a parser folds some of its latest markers, one after the other, and then
does one thing more, unless a marker lacks its operands first. `Reduces` is one such fold, `Walks` a
row of them with its end, and the two kinds of end are `Ends`, of a statement, and `Arrives`, of a
token that has come.

`push_walks` and `drain_walks` say that each step of any parser is of that form. So what holds of a
parser after a step is a matter of these cases, one lemma each (`Walks.keeps`). The first such matter
is that its layers stay in order (`Layered.push`); and in layers a call always reaches its group
(`Layered.reaches`).
-/

namespace ExprYard

namespace Kind

/-- Whether tokens of a kind are operands by themselves. -/
def isOperand : Kind → Bool
  | integer | float | string | char | identifier | emptyTuple => true
  | type word => word ≠ .tuple
  | _ => false

end Kind

namespace Marker

/-- The token that a marker stands for. -/
def token : Marker → Token
  | operator token _ | paren token _ | call token | letWord token => token

/-- Whether a marker stands for an operator. -/
def isOperator : Marker → Bool
  | operator .. => true
  | paren .. | call _ | letWord _ => false

/-- Whether a marker is folded at the end of a statement. -/
def isFolded : Marker → Bool
  | operator .. | letWord _ => true
  | paren .. | call _ => false

/-- How many operands a marker takes when it is folded. -/
def demand : Marker → Nat
  | operator _ binding => binding.arity.operands
  | call _ | letWord _ => 1
  | paren .. => 0

theorem demand_pos {m : Marker} (h : m.isFolded = true) : 0 < m.demand := by
  cases m with
  | operator t binding => cases ha : binding.arity <;> simp [demand, ha, Arity.operands]
  | letWord t => exact Nat.one_pos
  | paren | call => cases h

theorem count?_of_isFolded {m : Marker} (h : m.isFolded = true) : m.count? = none := by
  cases m with
  | operator | letWord => rfl
  | paren | call => cases h

end Marker

namespace Parser

variable {p q : Parser} {m : Marker} {ms : List Marker}

/-! ## Folding the latest marker -/

/-- The latest marker takes its operands, which lie above the floor. -/
inductive Reduces : Parser → Parser → Prop where
  | fold {p : Parser} {m : Marker} {ms : List Marker} {xs rest : List Tree}
      (pending : p.pending = m :: ms) (folded : m.isFolded = true)
      (operands : p.operands = xs ++ rest) (demand : xs.length = m.demand)
      (reach : p.floor ≤ rest.length) :
      Reduces p { p with operands := .branch m.token xs.reverse :: rest, pending := ms }

/-- A parser folds its latest markers one by one until an end is reached, or until a marker finds
fewer operands above the floor than it takes. -/
inductive Walks (End : Parser → Outcome → Prop) : Parser → Outcome → Prop where
  | ends {p : Parser} {o : Outcome} (h : End p o) : Walks End p o
  | folds {p q : Parser} {o : Outcome} (h : Reduces p q) (rest : Walks End q o) : Walks End p o
  | lacks {p : Parser} {m : Marker} {ms : List Marker} (pending : p.pending = m :: ms)
      (folded : m.isFolded = true) (short : p.operands.length < p.floor + m.demand) :
      Walks End p ({ p with pending := ms }, some (missing m.token))

/-- What folding keeps, and each end turns into something, a walk turns into that. -/
theorem Walks.keeps {End : Parser → Outcome → Prop} {I : Parser → Prop} {J : Outcome → Prop}
    {o : Outcome} (hw : Walks End p o) (hp : I p)
    (folds : ∀ {p q : Parser}, Reduces p q → I p → I q)
    (ends : ∀ {p : Parser} {o : Outcome}, End p o → I p → J o)
    (lacks : ∀ {p : Parser} {m : Marker} {ms : List Marker}, p.pending = m :: ms →
      m.isFolded = true → I p → J ({ p with pending := ms }, some (missing m.token))) : J o := by
  induction hw with
  | ends h => exact ends h hp
  | folds h rest ih => exact ih (folds h hp)
  | lacks pending folded short => exact lacks pending folded hp

theorem Walks.imp {End End' : Parser → Outcome → Prop} {o : Outcome} (hw : Walks End p o)
    (h : ∀ {p : Parser} {o : Outcome}, End p o → End' p o) : Walks End' p o := by
  induction hw with
  | ends he => exact .ends (h he)
  | folds hr rest ih => exact .folds hr ih
  | lacks pending folded short => exact .lacks pending folded short

/-- A parser that has lost a marker that is no parenthesis has its layers as they were. -/
theorem counts_of_pending (hp : p.pending = m :: ms) (hm : m.count? = none) :
    p.counts = ms.filterMap Marker.count? := by
  rw [counts, hp, List.filterMap_cons_none hm]

theorem floor_of_pending (hp : p.pending = m :: ms) (hm : m.count? = none) {xs : List Tree} :
    ({ p with operands := xs, pending := ms } : Parser).floor = p.floor :=
  floor_eq_of_counts (counts_of_pending hp hm).symm rfl

theorem Reduces.floor (h : Reduces p q) : q.floor = p.floor := by
  cases h with
  | fold pending folded => exact floor_of_pending pending (Marker.count?_of_isFolded folded)

theorem Reduces.statementStart (h : Reduces p q) : q.statementStart = p.statementStart := by
  cases h with
  | fold => rfl

/-- The fold of the latest marker, which either succeeds above the floor or lacks operands. -/
theorem fold_latest (hp : p.pending = m :: ms) (hm : m.isFolded = true) :
    (∃ q, fold m.token m.demand { p with pending := ms } = (q, none) ∧ q.pending = ms ∧
      Reduces p q) ∨
    fold m.token m.demand { p with pending := ms }
        = ({ p with pending := ms }, some (missing m.token)) ∧
      p.operands.length < p.floor + m.demand := by
  have hfloor : ({ p with pending := ms } : Parser).floor = p.floor :=
    floor_of_pending hp (Marker.count?_of_isFolded hm)
  have hpos := Marker.demand_pos hm
  unfold fold available
  rw [hfloor]
  by_cases hshort : p.operands.length - p.floor < m.demand
  · refine .inr ⟨if_pos hshort, ?_⟩
    omega
  · refine .inl ⟨_, if_neg hshort, rfl, ?_⟩
    have hlen : (p.operands.take m.demand).length = m.demand := by
      rw [List.length_take]
      omega
    refine .fold hp hm (List.take_append_drop m.demand p.operands).symm hlen ?_
    show p.floor ≤ (p.operands.drop m.demand).length
    rw [List.length_drop]
    omega

/-- A fold of the latest marker, and what follows if it does not fail. -/
theorem Walks.bind_fold {End : Parser → Outcome → Prop} {next : Parser → Outcome}
    (hp : p.pending = m :: ms) (hm : m.isFolded = true)
    (hnext : ∀ r : Parser, r.pending = ms → Walks End r (next r)) :
    Walks End p (match fold m.token m.demand { p with pending := ms } with
      | (r, none) => next r
      | failure => failure) := by
  rcases fold_latest hp hm with ⟨q, hq, hms, hreduces⟩ | ⟨hq, hshort⟩
  · rw [hq]
    exact .folds hreduces (hnext q hms)
  · rw [hq]
    exact .lacks hp hm hshort

/-- What a walk comes to, and what follows if it does not fail. -/
theorem Walks.andThen {End End' : Parser → Outcome → Prop} {next : Parser → Outcome} {o : Outcome}
    (hnext : ∀ {p q : Parser}, End p (q, none) → End' p (next q))
    (hfails : ∀ {p q : Parser} {d : Diagnostic}, End p (q, some d) → End' p (q, some d)) :
    Walks End p o → Walks End' p (match o with
      | (q, none) => next q
      | failure => failure) := by
  intro hw
  induction hw with
  | @ends p o h =>
    obtain ⟨q, d⟩ := o
    cases d with
    | none => exact .ends (hnext h)
    | some d => exact .ends (hfails h)
  | folds h rest ih => exact .folds h ih
  | lacks pending folded short => exact .lacks pending folded short

/-- A walk that does not fail comes to an end, with what folding keeps. -/
theorem Walks.exists_end {End : Parser → Outcome → Prop} {I : Parser → Prop} {o : Outcome}
    (hw : Walks End p o) (hp : I p) (folds : ∀ {p q : Parser}, Reduces p q → I p → I q)
    (ho : o.2 = none) : ∃ r : Parser, I r ∧ End r o := by
  induction hw with
  | ends h => exact ⟨_, hp, h⟩
  | folds h rest ih => exact ih (folds h hp) ho
  | lacks => cases ho

/-! ## The end of a statement -/

/-- The end of a statement, when all that is folded for it has been folded. -/
inductive Ends : Parser → Outcome → Prop where
  | done {p : Parser} (pending : p.pending = []) :
      Ends p ({ p with statementStart := p.operands.length }, none)
  | unclosed {p : Parser} {m : Marker} {ms : List Marker} (pending : p.pending = m :: ms)
      (folded : m.isFolded = false) :
      Ends p ({ p with pending := ms }, some (mismatched m.token))

theorem drain_walks (p : Parser) : Walks Ends p p.drain := by
  suffices h : ∀ (ms : List Marker) (q : Parser), q.pending = ms →
      Walks Ends q (drain.go ms q) from h p.pending p rfl
  intro ms
  induction ms with
  | nil => exact fun q hq => .ends (.done hq)
  | cons m ms ih =>
    intro q hq
    cases m with
    | operator t binding => exact .bind_fold (m := .operator t binding) hq rfl ih
    | letWord t => exact .bind_fold (m := .letWord t) hq rfl ih
    | paren t n => exact .ends (.unclosed hq rfl)
    | call t => exact .ends (.unclosed hq rfl)

/-! ## A token that has come -/

/-- The marker that a token waits as. -/
inductive Awaits (t : Token) (p : Parser) : Marker → Prop where
  | call (kind : t.kind = .function ∨ t.kind = .type .tuple) : Awaits t p (.call t)
  | paren (kind : t.kind = .openParen) : Awaits t p (.paren t p.operands.length)
  | letWord (kind : t.kind = .keyword .letWord) : Awaits t p (.letWord t)
  /-- An operator between operands waits above none that is folded before it. -/
  | operator {b : Binding} (bound : t.kind.binding = some b)
      (top : b.arity = .binary → ∀ u c, p.pending.head? = some (.operator u c) →
        c.foldsBefore b = false) : Awaits t p (.operator t b)

/-- What a group with `n` operands outside of it is: its operand, or the empty tuple if it has none.
Below it there are the other operands. -/
inductive Leaves (closing : Token) (n : Nat) : List Tree → Tree → List Tree → Prop where
  | full {x : Tree} {xs : List Tree} (h : n ≤ xs.length) : Leaves closing n (x :: xs) x xs
  | empty {xs : List Tree} (h : xs.length ≤ n) : Leaves closing n xs (.unit closing.span) xs

/-- What a token comes to when all that is folded for it has been folded. -/
inductive Arrives (t : Token) : Parser → Outcome → Prop where
  | unread {p : Parser} (kind : t.kind = .eof) : Arrives t p (p, none)
  | lexical {p : Parser} (kind : t.kind = .error) :
      Arrives t p (p.report ⟨.lexicalError t.text, t.position⟩, none)
  | refused {p : Parser} (kind : t.kind = .invalid) : Arrives t p (p.report (stray t), none)
  | operand {p : Parser} (kind : t.kind.isOperand = true) : Arrives t p (p.shift (.leaf t), none)
  | marker {p : Parser} {m : Marker} (h : Awaits t p m) : Arrives t p (p.await m, none)
  /-- The end of a group that is a value. -/
  | value {p : Parser} {opening : Token} {n : Nat} {ms : List Marker} {x : Tree} {xs : List Tree}
      (kind : t.kind = .closeParen) (pending : p.pending = .paren opening n :: ms)
      (free : ∀ f rest, ms ≠ .call f :: rest) (group : Leaves t n p.operands x xs) :
      Arrives t p ({ p with operands := x.closeTuple :: xs, pending := ms }, none)
  /-- The end of a group that is the argument of a call. -/
  | argument {p : Parser} {opening f : Token} {n : Nat} {ms : List Marker} {x : Tree}
      {xs : List Tree} (kind : t.kind = .closeParen)
      (pending : p.pending = .paren opening n :: .call f :: ms)
      (group : Leaves t n p.operands x xs) :
      Arrives t p ({ p with operands := .branch f [x] :: xs, pending := ms }, none)
  /-- The end of a group that its call cannot reach, because it lies below the floor. -/
  | unreached {p : Parser} {opening f : Token} {n : Nat} {ms : List Marker} {x : Tree}
      {xs : List Tree} (kind : t.kind = .closeParen)
      (pending : p.pending = .paren opening n :: .call f :: ms) (group : Leaves t n p.operands x xs)
      (short : xs.length < ({ p with pending := ms } : Parser).floor) :
      Arrives t p ({ p with operands := x :: xs, pending := ms }, some (missing f))
  /-- The end of a group that did not begin. -/
  | unopened {p : Parser} (kind : t.kind = .closeParen)
      (top : ∀ m ∈ p.pending.head?, m.isOperator = false ∧ m.count? = none) :
      Arrives t p ({ p with pending := p.pending.tail }, some (mismatched t))
  | semicolon {p : Parser} {o : Outcome} (kind : t.kind = .keyword .semicolon) (h : Ends p o) :
      Arrives t p o

/-- What a group leaves has at least the operands outside of it below. -/
theorem Leaves.le_length {closing : Token} {n : Nat} {xs rest : List Tree} {x : Tree}
    (h : Leaves closing n xs x rest) (hn : n ≤ xs.length) : n ≤ rest.length := by
  cases h with
  | full h => exact h
  | empty => exact hn

variable {t : Token}

/-- An operator between operands may wait once the latest marker is not folded before it. -/
inductive Yields (b : Binding) : Parser → Outcome → Prop where
  | stays {p : Parser} (top : ∀ u c, p.pending.head? = some (.operator u c) →
      c.foldsBefore b = false) : Yields b p (p, none)

theorem foldBefore_walks (b : Binding) (p : Parser) : Walks (Yields b) p (p.foldBefore b) := by
  suffices h : ∀ (ms : List Marker) (q : Parser), q.pending = ms →
      Walks (Yields b) q (foldBefore.go b ms q) from h p.pending p rfl
  intro ms
  induction ms with
  | nil =>
    intro q hq
    refine .ends (.stays fun u c hu => ?_)
    rw [hq] at hu
    cases hu
  | cons m ms ih =>
    intro q hq
    cases m with
    | operator u c =>
      by_cases hc : c.foldsBefore b = true
      · rw [foldBefore.go, if_pos hc]
        exact .bind_fold (m := .operator u c) hq rfl ih
      · rw [foldBefore.go, if_neg hc]
        refine .ends (.stays fun u' c' hu => ?_)
        rw [hq] at hu
        cases hu
        exact eq_false_of_ne_true hc
    | paren | call | letWord =>
      refine .ends (.stays fun u c hu => ?_)
      rw [hq] at hu
      cases hu

theorem pushOperator_walks {b : Binding} (bound : t.kind.binding = some b) (p : Parser) :
    Walks (Arrives t) p (p.pushOperator t b) := by
  unfold pushOperator
  cases ha : b.arity with
  | unary => exact .ends (.marker (.operator bound fun h => (by rw [ha] at h; cases h)))
  | binary =>
    dsimp only
    refine Walks.andThen ?_ ?_ (foldBefore_walks b p)
    · intro p q hy
      cases hy with
      | stays top => exact .marker (.operator bound fun _ => top)
    · intro p q d hy
      cases hy

/-- A closing parenthesis ends the group whose parenthesis is the latest marker, or none. -/
inductive Closes (t : Token) : Parser → Outcome → Prop where
  | group {p : Parser} {opening : Token} {n : Nat} {ms : List Marker} {x : Tree} {xs : List Tree}
      (pending : p.pending = .paren opening n :: ms) (group : Leaves t n p.operands x xs) :
      Closes t p ({ p with operands := x :: xs, pending := ms }, none)
  | unopened {p : Parser} (top : ∀ m ∈ p.pending.head?, m.isOperator = false ∧ m.count? = none) :
      Closes t p ({ p with pending := p.pending.tail }, some (mismatched t))

/-- A group whose operators have been folded is left. -/
theorem endGroup_go_paren (t opening : Token) (n : Nat) (ms : List Marker) (p : Parser) :
    ∃ x xs, Leaves t n p.operands x xs ∧ endGroup.go t (.paren opening n :: ms) p
      = ({ p with operands := x :: xs, pending := ms }, none) := by
  rw [endGroup.go]
  dsimp only
  by_cases hfull : n < p.operands.length
  · obtain ⟨x, xs, hx⟩ := List.exists_cons_of_ne_nil
      (List.ne_nil_of_length_pos (Nat.zero_lt_of_lt hfull))
    refine ⟨x, xs, ?_, ?_⟩
    · rw [hx] at hfull ⊢
      exact .full (Nat.le_of_lt_succ hfull)
    · rw [if_pos hfull, hx]
  · rw [if_neg hfull]
    exact ⟨_, _, .empty (Nat.le_of_not_lt hfull), rfl⟩

theorem endGroup_walks (t : Token) (p : Parser) : Walks (Closes t) p (p.endGroup t) := by
  suffices h : ∀ (ms : List Marker) (q : Parser), q.pending = ms →
      Walks (Closes t) q (endGroup.go t ms q) from h p.pending p rfl
  intro ms
  induction ms with
  | nil =>
    intro q hq
    have hstop : Closes t q ({ q with pending := q.pending.tail }, some (mismatched t)) :=
      .unopened fun m hm => (by rw [hq] at hm; cases hm)
    obtain ⟨operands, pending, diagnostics, start⟩ := q
    cases hq
    exact .ends hstop
  | cons m ms ih =>
    intro q hq
    cases m with
    | operator u c => exact .bind_fold (m := .operator u c) hq rfl ih
    | paren u n =>
      obtain ⟨x, xs, hgroup, hgo⟩ := endGroup_go_paren t u n ms q
      rw [hgo]
      exact .ends (.group hq hgroup)
    | call u | letWord u =>
      have hstop : Closes t q ({ q with pending := q.pending.tail }, some (mismatched t)) :=
        .unopened fun m hm => (by rw [hq] at hm; cases hm; exact ⟨rfl, rfl⟩)
      rw [hq] at hstop
      exact .ends hstop

/-- A call takes its group unless the floor is above it. -/
theorem fold_argument (f : Token) (x : Tree) (xs : List Tree) (ms : List Marker) (p : Parser) :
    fold f 1 { p with operands := x :: xs, pending := ms }
      = if xs.length < ({ p with pending := ms } : Parser).floor then
          ({ p with operands := x :: xs, pending := ms }, some (missing f))
        else ({ p with operands := .branch f [x] :: xs, pending := ms }, none) := by
  have hfloor : ({ p with operands := x :: xs, pending := ms } : Parser).floor
      = ({ p with pending := ms } : Parser).floor := floor_eq_of_counts rfl rfl
  have hshort : ({ p with operands := x :: xs, pending := ms } : Parser).available < 1
      ↔ xs.length < ({ p with pending := ms } : Parser).floor := by
    unfold available
    rw [hfloor, List.length_cons]
    omega
  unfold fold
  by_cases h : xs.length < ({ p with pending := ms } : Parser).floor
  · rw [if_pos h, if_pos (hshort.mpr h)]
  · rw [if_neg h, if_neg fun ha => h (hshort.mp ha)]
    rfl

theorem pushClosing_walks (kind : t.kind = .closeParen) (p : Parser) :
    Walks (Arrives t) p (p.pushClosing t) := by
  refine Walks.andThen ?_ ?_ (endGroup_walks t p)
  · intro p q hc
    cases hc with
    | @group opening n ms x xs hp group =>
      cases ms with
      | nil => exact .value kind hp (fun f rest hf => nomatch hf) group
      | cons m ms =>
        cases m with
        | call f =>
          show Arrives t p (fold f 1 { p with operands := x :: xs, pending := ms })
          rw [fold_argument]
          split
          · rename_i short
            exact .unreached kind hp group short
          · exact .argument kind hp group
        | operator | paren | letWord => exact .value kind hp (fun f rest hf => nomatch hf) group
  · intro p q d hc
    cases hc with
    | unopened top => exact .unopened kind top

/-- What a token does to a parser. -/
theorem push_walks (t : Token) (p : Parser) : Walks (Arrives t) p (p.push t) := by
  unfold push
  cases hk : t.kind with
  | error => exact .ends (.lexical hk)
  | invalid => exact .ends (.refused hk)
  | eof => exact .ends (.unread hk)
  | integer | float | string | char | identifier | emptyTuple =>
    exact .ends (.operand (by rw [hk]; rfl))
  | function => exact .ends (.marker (.call (.inl hk)))
  | openParen => exact .ends (.marker (.paren hk))
  | closeParen => exact pushClosing_walks hk p
  | operator op => exact pushOperator_walks (by rw [hk]; rfl) p
  | type word =>
    cases word with
    | tuple => exact .ends (.marker (.call (.inr hk)))
    | i32 | f32 | bool | string | rune => exact .ends (.operand (by rw [hk]; rfl))
  | keyword word =>
    cases word with
    | letWord => exact .ends (.marker (.letWord hk))
    | semicolon => exact (drain_walks p).imp fun he => .semicolon hk he
    | typeSeparator | assign | comma => exact pushOperator_walks (by rw [hk]; rfl) p

/-! ## Layers -/

theorem Reduces.layered (h : Reduces p q) (hp : p.Layered) : q.Layered := by
  cases h with
  | fold pending folded operands demand reach =>
    have hc := (counts_of_pending pending (Marker.count?_of_isFolded folded)).symm
    exact hp.above hc rfl (Nat.le_succ_of_le reach)

/-- Losing its latest marker leaves a parser in layers. -/
theorem Layered.drop (h : p.Layered) (hp : p.pending = m :: ms) :
    ({ p with pending := ms } : Parser).Layered := by
  cases hm : m.count? with
  | none => exact h.above (counts_of_pending hp hm).symm rfl h.floor_le
  | some n =>
    cases m with
    | paren t k => exact h.leave hp (h.count_le hp)
    | operator | call | letWord => cases hm

/-- A walk whose end leaves a parser in layers does so all the way. -/
theorem Walks.layered {End : Parser → Outcome → Prop} {o : Outcome} (hw : Walks End p o)
    (hp : p.Layered) (hend : ∀ {q : Parser} {o : Outcome}, End q o → q.Layered → o.1.Layered) :
    o.1.Layered :=
  hw.keeps (J := fun o => o.1.Layered) hp (fun hr => hr.layered) hend fun pending _ hl =>
    hl.drop pending

theorem Ends.layered {o : Outcome} (h : Ends p o) (hp : p.Layered) : o.1.Layered := by
  cases h with
  | done pending =>
    refine Layered.begins ?_
    rw [counts, pending]
    rfl
  | unclosed pending folded => exact hp.drop pending

theorem Layered.drain (h : p.Layered) : p.drain.1.Layered :=
  (drain_walks p).layered h fun he => he.layered

/-- In layers, no call has its group below the floor. -/
theorem Layered.reaches {opening f : Token} {n : Nat} {x : Tree} {xs : List Tree} (h : p.Layered)
    (hp : p.pending = .paren opening n :: .call f :: ms) (group : Leaves t n p.operands x xs) :
    ({ p with pending := ms } : Parser).floor ≤ xs.length := by
  have hxs : ({ p with operands := xs, pending := .call f :: ms } : Parser).Layered :=
    h.leave hp (group.le_length (h.count_le hp))
  have hfloor : ({ p with pending := ms } : Parser).floor
      = ({ p with operands := xs, pending := .call f :: ms } : Parser).floor :=
    floor_eq_of_counts rfl rfl
  rw [hfloor]
  exact hxs.floor_le

theorem Awaits.token_eq {m : Marker} (h : Awaits t p m) : m.token = t := by
  cases h with
  | call | paren | letWord | operator => rfl

theorem Awaits.layered {m : Marker} (h : Awaits t p m) (hp : p.Layered) : (p.await m).Layered := by
  cases h with
  | paren => exact hp.enter t
  | call | letWord | operator => exact hp.above rfl rfl hp.floor_le

theorem Arrives.layered {o : Outcome} (h : Arrives t p o) (hp : p.Layered) : o.1.Layered := by
  cases h with
  | unread | lexical | refused => exact hp.above rfl rfl hp.floor_le
  | operand => exact hp.above rfl rfl (Nat.le_succ_of_le hp.floor_le)
  | marker h => exact h.layered hp
  | value _ pending _ group =>
    have hn := group.le_length (hp.count_le pending)
    exact hp.leave pending (Nat.le_succ_of_le hn)
  | @argument opening f n ms x xs _ pending group =>
    have hn := group.le_length (hp.count_le pending)
    have hgroup : ({ p with operands := .branch f [x] :: xs, pending := .call f :: ms } :
        Parser).Layered := hp.leave pending (Nat.le_succ_of_le hn)
    exact hgroup.drop rfl
  | unreached _ pending group short =>
    exact absurd (hp.reaches pending group) (Nat.not_le_of_lt short)
  | unopened =>
    cases hq : p.pending with
    | nil => exact hp.above (by rw [counts, counts, hq]; rfl) rfl hp.floor_le
    | cons m ms => exact hp.drop hq
  | semicolon _ h => exact h.layered hp

theorem Layered.push (h : p.Layered) (t : Token) : (p.push t).1.Layered :=
  (push_walks t p).layered h fun he => he.layered

end Parser

end ExprYard
