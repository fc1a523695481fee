import ExprYard.Proofs.Parser.Yard

/-!
# Groups within groups

Each parenthesis that a parser has open has a row of operands of its own, and below it waits the row
that the group will be an operand of. A `Scope` is one such parenthesis with the row below it and
the call, if any, whose arguments it opens; `within` puts a parser inside of several.

What ends a group folds its row and hands the tree on to the row below (`pushClosing_shifted`), and
it fails where the row lacks its last operand (`pushClosing_missing`). What ends a statement folds
the row of the statement and fails where a group is still open (`drain_of_paren`).
-/

namespace ExprYard

/-- An open parenthesis, and what waits below it. -/
structure Scope where
  /-- The operators that wait for the group to be an operand of theirs. -/
  stack : Stack
  /-- The prefixes of the group. -/
  bangs : List Token
  /-- The call whose arguments the parenthesis opens, if it is one of a call. -/
  call : Option Token
  opening : Token

/-- What a group is to the row below it: the argument of its call, or its tree as one value. -/
def Scope.close (s : Scope) (x : Tree) : Tree :=
  s.call.elim x.closeTuple fun f => .branch f [x]

namespace Parser

/-- The parser with a call waiting for its parenthesis, if there is a call. -/
def awaitCall (call : Option Token) (p : Parser) : Parser :=
  call.elim p fun f => p.await (.call f)

/-- The parser inside of one more parenthesis. -/
def enter (s : Scope) (p : Parser) : Parser :=
  let p := (p.waiting s.stack s.bangs).awaitCall s.call
  p.await (.paren s.opening p.operands.length)

/-- The parser inside of parentheses, the innermost of which comes first. -/
def within : List Scope → Parser → Parser
  | [], p => p
  | s :: ss, p => (within ss p).enter s

variable {p q : Parser}

theorem ground_enter (s : Scope) (p : Parser) : (p.enter s).Ground where
  floor := rfl
  top := by
    intro m hm
    cases hm
    rfl

theorem ground_within (hp : p.Ground) : ∀ ss : List Scope, (p.within ss).Ground
  | [] => hp
  | s :: ss => ground_enter s (p.within ss)

/-! ## The end of a group -/

/-- The parser with a group's tree is on its way to the row below: the call takes it, or else it is
closed as a value of its own. -/
theorem pushClosing_of_endGroup {s : Scope} {closing : Token} {x : Tree} (hp : p.Ground)
    (h : q.endGroup closing = (((p.waiting s.stack s.bangs).awaitCall s.call).shift x, none)) :
    q.pushClosing closing = ((p.waiting s.stack s.bangs).shift (s.close x), none) := by
  obtain ⟨st, bs, call, opening⟩ := s
  unfold pushClosing
  rw [h]
  dsimp only
  cases call with
  | some f =>
    have hfloor : (p.waiting st bs).floor ≤ (p.waiting st bs).operands.length := by
      unfold waiting
      rw [floor_prefixed, floor_stacked, hp.floor]
      show _ ≤ (p.stacked st).operands.length
      rw [length_operands_stacked]
      omega
    exact fold_shift f x hfloor
  | none =>
    -- The latest marker below the group belongs to the row there and is no call.
    have htop : ∀ (f : Token) (ms : List Marker), (p.waiting st bs).pending ≠ .call f :: ms := by
      intro f ms hm
      cases bs with
      | cons b bs => cases hm
      | nil =>
        cases st with
        | cons y st => cases hm
        | nil =>
          have hground := hp.top (.call f) (by
            rw [show p.pending = .call f :: ms from hm]
            rfl)
          cases hground
    split
    · rename_i f ms hm
      exact (htop f ms hm).elim
    · rfl

/-- A group with a tree in it leaves that tree. -/
theorem endGroup_go_full (closing t : Token) (x : Tree) (r : Parser) :
    endGroup.go closing (r.await (.paren t r.operands.length)).pending
        ((r.await (.paren t r.operands.length)).shift x) = (r.shift x, none) :=
  congrArg (fun p => (p, none)) (if_pos (Nat.lt_succ_self r.operands.length))

/-- A group with nothing in it leaves the empty tuple. -/
theorem endGroup_go_empty (closing t : Token) (r : Parser) :
    endGroup.go closing (r.await (.paren t r.operands.length)).pending
        (r.await (.paren t r.operands.length)) = (r.shift (.unit closing.span), none) :=
  congrArg (fun p => (p, none)) (if_neg (Nat.lt_irrefl r.operands.length))

/-- A closing parenthesis behind an operand folds the row of the group. -/
theorem pushClosing_shifted {s : Scope} {closing : Token} (hp : p.Ground) (st : Stack)
    (o : Operand) : (((p.enter s).stacked st).shifted o).pushClosing closing
      = ((p.waiting s.stack s.bangs).shift (s.close (st.collapse o.tree)), none) := by
  refine pushClosing_of_endGroup hp ?_
  have hground := ground_enter s p
  exact ((folds_endGroup closing).shifted (Nat.le_of_eq hground.floor) st o).trans
    (endGroup_go_full closing s.opening _ _)

/-- A closing parenthesis right behind its opening one makes the empty tuple. -/
theorem pushClosing_empty {s : Scope} {closing : Token} (hp : p.Ground) :
    (p.enter s).pushClosing closing
      = ((p.waiting s.stack s.bangs).shift (s.close (.unit closing.span)), none) := by
  exact pushClosing_of_endGroup hp (endGroup_go_empty closing s.opening _)

/-- A closing parenthesis where an operand is awaited fails, for want of that operand. -/
theorem pushClosing_missing (closing : Token) {st : Stack} {bs : List Token} {t : Token}
    (hq : q.Ground) (ht : blamed bs st = some t) :
    ∃ r, (q.waiting st bs).pushClosing closing = (r, some (missing t)) := by
  obtain ⟨r, hr⟩ := (folds_endGroup closing).blames hq.floor ht
  refine ⟨r, ?_⟩
  unfold pushClosing endGroup
  rw [hr]

/-! ## The end of a statement -/

/-- The parser at the start of a statement, with the trees of the statements before it, the latest
first. -/
def between (trees : List Tree) : Parser :=
  ⟨trees, [], [], trees.length⟩

theorem ground_between (trees : List Tree) : (between trees).Ground where
  floor := rfl
  top := by
    intro m hm
    cases hm

theorem ground_letWord (word : Token) (trees : List Tree) :
    ((between trees).await (.letWord word)).Ground where
  floor := rfl
  top := by
    intro m hm
    cases hm
    rfl

theorem drain_between (trees : List Tree) : (between trees).drain = (between trees, none) := rfl

/-- The end of an expression that is a statement. -/
theorem drain_expression (trees : List Tree) (st : Stack) (o : Operand) :
    (((between trees).stacked st).shifted o).drain
      = (between (st.collapse o.tree :: trees), none) :=
  folds_drain.shifted (Nat.le_of_eq (ground_between trees).floor) st o

/-- The word `let` takes the tree of what is declared. -/
theorem drain_go_letWord {word : Token} {pending : List Marker} {p q : Parser}
    (h : fold word 1 { p with pending } = (q, none)) :
    drain.go (.letWord word :: pending) p = drain.go pending q := by
  rw [drain.go, h]

/-- The end of a declaration. -/
theorem drain_declaration (word : Token) (trees : List Tree) (st : Stack) (o : Operand) :
    ((((between trees).await (.letWord word)).stacked st).shifted o).drain
      = (between (.branch word [st.collapse o.tree] :: trees), none) := by
  refine (folds_drain.shifted (Nat.le_of_eq (ground_letWord word trees).floor) st o).trans ?_
  have hfold := fold_shift word (st.collapse o.tree) (Nat.le_of_eq (ground_between trees).floor)
  exact drain_go_letWord (p := ((between trees).await (.letWord word)).shift _) hfold

/-- The end of a statement where an operand is awaited fails. -/
theorem drain_missing {st : Stack} {bs : List Token} {t : Token} (hq : q.Ground)
    (ht : blamed bs st = some t) : ∃ r, (q.waiting st bs).drain = (r, some (missing t)) :=
  folds_drain.blames hq.floor ht

/-- What does not succeed has failed. -/
theorem exists_failure {outcome : Outcome} (h : ∀ p, outcome = (p, none) → False) :
    ∃ r d, outcome = (r, some d) := by
  obtain ⟨r, failure⟩ := outcome
  cases failure with
  | none => exact (h r rfl).elim
  | some d => exact ⟨r, d, rfl⟩

/-- The end of a statement fails where a parenthesis is open. -/
theorem drain_of_paren {t : Token} {n : Nat} (h : .paren t n ∈ p.pending) :
    ∃ r d, p.drain = (r, some d) := by
  suffices hgo : ∀ (ms : List Marker) (q : Parser), .paren t n ∈ ms →
      ∃ r d, drain.go ms q = (r, some d) from hgo p.pending p h
  intro ms q hm
  have below : ∀ {m : Marker} {ms : List Marker}, .paren t n ∈ m :: ms → .paren t n ≠ m →
      .paren t n ∈ ms := fun hm hne => (List.mem_cons.mp hm).resolve_left hne
  fun_induction drain.go ms q with
  | case1 p => cases hm
  | case2 token binding pending p q hfold ih => exact ih (below hm (by simp))
  | case3 token binding pending p hfailed => exact exists_failure hfailed
  | case4 token pending p q hfold ih => exact ih (below hm (by simp))
  | case5 token pending p hfailed => exact exists_failure hfailed
  | case6 token operands pending p => exact ⟨_, _, rfl⟩
  | case7 token pending p => exact ⟨_, _, rfl⟩

theorem paren_mem_within (p : Parser) (s : Scope) (ss : List Scope) :
    ∃ n, .paren s.opening n ∈ (p.within (s :: ss)).pending :=
  ⟨_, List.mem_cons_self⟩

end Parser

end ExprYard
