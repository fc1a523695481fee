import ExprYard.Proofs.Grammar.Lists
import ExprYard.Proofs.Parser.Scopes
import ExprYard.Proofs.Parser.Steps

/-!
# A parser reads derivations

Given the tokens of a derivation, a parser takes all of them and ends where the derivation says: an
operand is on its stack with its prefixes still waiting, and a row of operands has left its stack
behind. `Unary.takes` and `Expr.takes` say so for expressions by one induction over derivations,
and `Ty.takes` for types.
-/

namespace ExprYard

theorem Kind.IsValue.isOperand {kind : Kind} (h : kind.IsValue) : kind.isOperand = true := by
  rcases h with h | rfl
  · cases kind <;> first | rfl | cases h
  · rfl

theorem Kind.IsScalar.isOperand {kind : Kind} (h : kind.IsScalar) : kind.isOperand = true := by
  obtain ⟨word, rfl, hw⟩ := h
  exact decide_eq_true hw

namespace Parser

/-- The parser `p` takes the tokens one after the other, with no failure, and is `q` after them. -/
def Takes : List Token → Parser → Parser → Prop
  | [], p, q => p = q
  | t :: ts, p, q => ∃ m, p.push t = (m, none) ∧ Takes ts m q

theorem Takes.append {ts us : List Token} {p q r : Parser} (h : Takes ts p q)
    (g : Takes us q r) : Takes (ts ++ us) p r := by
  induction ts generalizing p with
  | nil =>
    rw [show p = q from h]
    exact g
  | cons t ts ih =>
    obtain ⟨m, hm, hts⟩ := h
    exact ⟨m, hm, ih hts⟩

/-- What a parser takes of tokens in two parts, it takes of the one and then of the other. -/
theorem takes_append {ts us : List Token} {p r : Parser} :
    Takes (ts ++ us) p r ↔ ∃ q, Takes ts p q ∧ Takes us q r := by
  refine ⟨fun h => ?_, fun ⟨q, h, g⟩ => h.append g⟩
  induction ts generalizing p with
  | nil => exact ⟨p, rfl, h⟩
  | cons t ts ih =>
    obtain ⟨m, hm, hts⟩ := h
    obtain ⟨q, hq, hus⟩ := ih hts
    exact ⟨q, ⟨m, hm, hq⟩, hus⟩

theorem Takes.cons {t : Token} {ts : List Token} {p q r : Parser} (h : p.push t = (q, none))
    (g : Takes ts q r) : Takes (t :: ts) p r :=
  ⟨q, h, g⟩

theorem takes_single {t : Token} {p q : Parser} (h : p.push t = (q, none)) : Takes [t] p q :=
  ⟨q, h, rfl⟩

/-- There is one parser that tokens lead to. -/
theorem Takes.unique {ts : List Token} {p q r : Parser} (h : Takes ts p q) (g : Takes ts p r) :
    q = r := by
  induction ts generalizing p with
  | nil => exact h.symm.trans g
  | cons t ts ih =>
    obtain ⟨m, hm, hts⟩ := h
    obtain ⟨m', hm', hts'⟩ := g
    rw [hm] at hm'
    cases hm'
    exact ih hts hts'

/-- A parser has taken tokens exactly when all of them are counted. -/
theorem takes_iff_pushAll {ts : List Token} {p q : Parser} :
    Takes ts p q ↔ pushAll ts p = (q, ts.length, none) := by
  induction ts generalizing p with
  | nil => exact ⟨fun h => by rw [show p = q from h]; rfl, fun h => (Prod.mk.inj h).1⟩
  | cons t ts ih =>
    unfold Takes pushAll
    cases hp : p.push t with
    | mk m failure =>
      cases failure with
      | none =>
        have hih := ih (p := m)
        constructor
        · rintro ⟨m', hm, hts⟩
          cases hm
          dsimp only
          rw [hih.mp hts]
          rfl
        · intro h
          refine ⟨m, rfl, hih.mpr ?_⟩
          have hcount := Nat.succ.inj (Prod.mk.inj (Prod.mk.inj h).2).1
          exact Prod.ext (Prod.mk.inj h).1
            (Prod.ext hcount (Prod.mk.inj (Prod.mk.inj h).2).2)
      | some d =>
        constructor
        · rintro ⟨m', hm, -⟩
          cases hm
        · intro h
          cases h

/-- The first token that a parser refuses ends what it takes. -/
theorem pushAll_of_refused {ts : List Token} {t : Token} {p q m : Parser} {d : Diagnostic}
    (h : Takes ts p q) (hf : q.push t = (m, some d)) (us : List Token) :
    pushAll (ts ++ t :: us) p = (m, ts.length, some d) := by
  induction ts generalizing p with
  | nil =>
    rw [show p = q from h]
    show pushAll (t :: us) q = _
    unfold pushAll
    rw [hf]
    rfl
  | cons u ts ih =>
    obtain ⟨r, hr, hts⟩ := h
    show pushAll (u :: (ts ++ t :: us)) p = _
    unfold pushAll
    rw [hr]
    dsimp only
    rw [ih hts]
    rfl

variable {p q : Parser}

/-! ## Single tokens -/

variable {t : Token}

theorem push_bang (h : t.kind = .operator .not) (p : Parser) :
    p.push t = (p.await (.operator t Operator.not.binding), none) := by
  unfold push
  rw [h]
  rfl

theorem push_operand (h : t.kind.isOperand = true) (p : Parser) :
    p.push t = (p.shift (.leaf t), none) := by
  unfold push
  cases hk : t.kind with
  | integer | float | string | char | identifier | emptyTuple => rfl
  | type word =>
    rw [hk] at h
    cases word with
    | tuple => cases h
    | i32 | f32 | bool | string | rune => rfl
  | eof | error | invalid | openParen | closeParen | function | operator | keyword =>
    rw [hk] at h
    cases h

theorem push_opening (h : t.kind = .openParen) (p : Parser) :
    p.push t = (p.await (.paren t p.operands.length), none) := by
  unfold push
  rw [h]

theorem push_closing (h : t.kind = .closeParen) (p : Parser) : p.push t = p.pushClosing t := by
  unfold push
  rw [h]

theorem push_function (h : t.kind = .function) (p : Parser) :
    p.push t = (p.await (.call t), none) := by
  unfold push
  rw [h]

theorem push_tuple (h : t.kind = .type .tuple) (p : Parser) :
    p.push t = (p.await (.call t), none) := by
  unfold push
  rw [h]

theorem push_letWord (h : t.kind = .keyword .letWord) (p : Parser) :
    p.push t = (p.await (.letWord t), none) := by
  unfold push
  rw [h]

theorem push_semicolon (h : t.kind = .keyword .semicolon) (p : Parser) : p.push t = p.drain := by
  unfold push
  rw [h]

end Parser

/-! ## Rows that are being read -/

/-- A row that has been read up to an operator, if anything of it has. -/
abbrev Lead := Option (Infix Tree × Link)

namespace Lead

/-- The whole row, when the rest of it is known. -/
def row (lead : Lead) (i : Infix Tree) : Infix Tree :=
  lead.elim i fun (j, b) => j.join b i

/-- The operators that wait behind what has been read of a row. -/
def stack (lead : Lead) : Stack :=
  lead.elim [] fun (j, b) => j.opened b

theorem row_join (lead : Lead) (i : Infix Tree) (b : Link) (j : Infix Tree) :
    lead.row (i.join b j) = (lead.row i).join b j := by
  cases lead with
  | none => rfl
  | some k => exact (Infix.join_assoc k.1 k.2 i b j).symm

theorem stack_row_single (lead : Lead) (x : Tree) : (lead.row (.single x)).stack = lead.stack := by
  cases lead with
  | none => rfl
  | some k => exact Infix.stack_join_single k.1 k.2 x

theorem last_row_single (lead : Lead) (x : Tree) : (lead.row (.single x)).last = x := by
  cases lead with
  | none => rfl
  | some k => exact Infix.last_join k.1 k.2 (.single x)

end Lead

namespace Parser

/-- The parser above `q` that has read a row, of which `o` is the last operand. -/
def row (i : Infix Tree) (o : Operand) (q : Parser) : Parser :=
  (q.stacked i.stack).shifted o

/-- An operator behind a row. -/
theorem push_link_row {q : Parser} (hq : q.Ground) (i : Infix Tree) {o : Operand}
    (ho : o.tree = i.last) (b : Link) :
    (q.row i o).push b.token = (q.stacked (i.opened b), none) := by
  unfold row
  rw [push_link b hq, ho]
  rfl

end Parser

/-! ## Expressions -/

namespace Unary

/-- An operand as a parser has it before its prefixes are folded. -/
def operand : Unary → Operand
  | .bang b u => u.operand.wrap [b.1]
  | .value t => ⟨[], .leaf t.1⟩
  | .group _ c closing => ⟨[], c.tree true closing.1⟩
  | .call f _ c closing => ⟨[], .branch f.1 [c.tree false closing.1]⟩

theorem tree_operand : ∀ u : Unary, u.operand.tree = u.tree
  | .bang b u => by
    unfold operand Unary.tree
    rw [← u.tree_operand]
    simp [Operand.tree, Operand.wrap, List.foldl_append]
  | .value t => rfl
  | .group .. => rfl
  | .call .. => rfl

end Unary

/-- The last operand of an expression. -/
def Expr.last : Expr → Operand
  | .unary u => u.operand
  | .binary _ _ u => u.operand

/-- The last operand of a list. -/
def Exprs.last : Exprs → Operand
  | .one e => e.last
  | .more _ _ e => e.last

theorem Expr.tree_last (e : Expr) (lead : Lead) : e.last.tree = (lead.row e.operands).last := by
  cases e with
  | unary u =>
    rw [Expr.last, u.tree_operand, Expr.operands, Lead.last_row_single]
  | binary e op u =>
    rw [Expr.last, u.tree_operand, Expr.operands, Lead.row_join, Infix.last_join, Infix.last_single]

theorem Exprs.tree_last (l : Exprs) (lead : Lead) : l.last.tree = (lead.row l.operands).last := by
  cases l with
  | one e => exact e.tree_last lead
  | more l comma e =>
    rw [Exprs.last, Exprs.operands, Lead.row_join]
    exact e.tree_last (some (lead.row l.operands, commaLink comma))

open ExprYard.Parser in
/-- The end of a group that has been read. -/
theorem Exprs.pushClosing_row {q : Parser} {l : Exprs} (h : Uncomma l.tokens) (hq : q.Ground)
    (s : Scope) (closing : Token) :
    ((q.enter s).row l.operands l.last).pushClosing closing
      = ((q.waiting s.stack s.bangs).shift (s.close (l.tree false)), none) := by
  unfold Parser.row
  rw [pushClosing_shifted hq, l.tree_last none]
  show (_, _) = _
  rw [show Lead.row none l.operands = l.operands from rfl, Infix.collapse_stack,
    l.tree_operands h]

open ExprYard.Parser in
mutual

/-- A parser takes an operand wherever one is awaited. -/
theorem Unary.takes : ∀ (u : Unary), Uncomma u.tokens → ∀ (q : Parser), q.Ground →
    ∀ (st : Stack) (bs : List Token),
      Takes u.tokens (q.waiting st bs) ((q.waiting st bs).shifted u.operand)
  | .bang b u, h, q, hq, st, bs => by
    have hu := u.takes (uncomma_cons.mp h).2 q hq st (b.1 :: bs)
    refine .cons (push_bang b.2 _) ?_
    rw [Unary.operand, shifted_wrap]
    exact hu
  | .value t, _, q, hq, st, bs => takes_single (push_operand t.2.isOperand _)
  | .group opening c closing, h, q, hq, st, bs => by
    have hc := uncomma_append.mp (uncomma_cons.mp h).2
    have htakes := c.takes hc.1 q hq ⟨st, bs, none, opening.1⟩ closing
    exact .cons (push_opening opening.2 _) htakes
  | .call f opening c closing, h, q, hq, st, bs => by
    have hc := uncomma_append.mp (uncomma_cons.mp (uncomma_cons.mp h).2).2
    have htakes := c.takes hc.1 q hq ⟨st, bs, some f.1, opening.1⟩ closing
    exact .cons (push_function f.2 _) (.cons (push_opening opening.2 _) htakes)

/-- A parser takes what stands between parentheses, with the closing one. -/
theorem Contents.takes : ∀ (c : Contents), Uncomma c.tokens → ∀ (q : Parser), q.Ground →
    ∀ (s : Scope) (closing : Token.Is .closeParen),
      Takes (c.tokens ++ [closing.1]) (q.enter s)
        ((q.waiting s.stack s.bangs).shift
          (s.call.elim (c.tree true closing.1) fun f => .branch f [c.tree false closing.1]))
  | .empty, _, q, hq, s, closing => by
    refine takes_single ((push_closing closing.2 _).trans (pushClosing_empty hq))
  | .list l, h, q, hq, s, closing => by
    have hl := l.takes h (q.enter s) (ground_enter s q) none
    refine Takes.append hl (takes_single ((push_closing closing.2 _).trans ?_))
    refine (Exprs.pushClosing_row h hq s closing.1).trans ?_
    unfold Scope.close
    rw [l.closeTuple_tree]
    rfl

/-- A parser takes a list behind whatever of its row has been read. -/
theorem Exprs.takes : ∀ (l : Exprs), Uncomma l.tokens → ∀ (q : Parser), q.Ground →
    ∀ (lead : Lead),
      Takes l.tokens (q.stacked lead.stack) (q.row (lead.row l.operands) l.last)
  | .one e, h, q, hq, lead => e.takes h q hq lead
  | .more l comma e, h, q, hq, lead => by
    obtain ⟨hl, he⟩ := uncomma_append.mp h
    have hlist := l.takes hl q hq lead
    have hexpr := e.takes (uncomma_cons.mp he).2 q hq
      (some (lead.row l.operands, commaLink comma))
    have hcomma := push_link_row hq _ (l.tree_last lead) (commaLink comma)
    rw [Exprs.operands, Lead.row_join]
    exact Takes.append hlist (.cons hcomma hexpr)

/-- A parser takes an expression behind whatever of its row has been read. -/
theorem Expr.takes : ∀ (e : Expr), Uncomma e.tokens → ∀ (q : Parser), q.Ground →
    ∀ (lead : Lead),
      Takes e.tokens (q.stacked lead.stack) (q.row (lead.row e.operands) e.last)
  | .unary u, h, q, hq, lead => by
    have hu := u.takes h q hq lead.stack []
    unfold Parser.row
    rw [Expr.operands, Lead.stack_row_single]
    exact hu
  | .binary e op u, h, q, hq, lead => by
    obtain ⟨he, hu⟩ := uncomma_append.mp h
    have hexpr := e.takes he q hq lead
    have hop := push_link_row hq _ (e.tree_last lead) op.link
    have hunary := u.takes (uncomma_cons.mp hu).2 q hq ((lead.row e.operands).opened op.link) []
    unfold Parser.row
    rw [Expr.operands, Lead.row_join, Infix.stack_join_single]
    exact Takes.append hexpr (.cons hop hunary)

end

/-! ## Types -/

/-- The last of some types, as an operand. -/
def Tys.last : Tys → Operand
  | .one t => ⟨[], t.tree⟩
  | .more _ _ t => ⟨[], t.tree⟩

theorem Tys.tree_last (l : Tys) (lead : Lead) : l.last.tree = (lead.row l.operands).last := by
  cases l with
  | one t =>
    rw [Tys.operands, Lead.last_row_single]
    rfl
  | more l comma t =>
    rw [Tys.operands, Lead.row_join, Infix.last_join, Infix.last_single]
    rfl

open ExprYard.Parser in
/-- The end of the element types of a tuple. -/
theorem Tys.pushClosing_row {q : Parser} (l : Tys) (hq : q.Ground) (s : Scope)
    (closing : Token) :
    ((q.enter s).row l.operands l.last).pushClosing closing
      = ((q.waiting s.stack s.bangs).shift (s.close l.tree), none) := by
  unfold Parser.row
  rw [pushClosing_shifted hq, l.tree_last none,
    show Lead.row none l.operands = l.operands from rfl, Infix.collapse_stack, l.tree_operands]

open ExprYard.Parser in
mutual

/-- A parser takes a type wherever an operand is awaited. -/
theorem Ty.takes : ∀ (t : Ty) (q : Parser), q.Ground → ∀ (st : Stack),
    Takes t.tokens (q.waiting st []) ((q.waiting st []).shift t.tree)
  | .scalar t, q, hq, st => takes_single (push_operand t.2.isOperand _)
  | .tuple word opening l closing, q, hq, st => by
    have hl := l.takes (q.enter ⟨st, [], some word.1, opening.1⟩) (ground_enter _ q) none
    have hclose := l.pushClosing_row hq ⟨st, [], some word.1, opening.1⟩ closing.1
    refine .cons (push_tuple word.2 _) (.cons (push_opening opening.2 _) ?_)
    exact Takes.append hl (takes_single ((push_closing closing.2 _).trans hclose))

/-- A parser takes types behind whatever of their row has been read. -/
theorem Tys.takes : ∀ (l : Tys) (q : Parser), q.Ground → ∀ (lead : Lead),
    Takes l.tokens (q.stacked lead.stack) (q.row (lead.row l.operands) l.last)
  | .one t, q, hq, lead => by
    have ht := t.takes q hq lead.stack
    unfold Parser.row
    rw [Tys.operands, Lead.stack_row_single]
    exact ht
  | .more l comma t, q, hq, lead => by
    have hl := l.takes q hq lead
    have hcomma := push_link_row hq _ (l.tree_last lead) (commaLink comma)
    have ht := t.takes q hq ((lead.row l.operands).opened (commaLink comma))
    unfold Parser.row
    rw [Tys.operands, Lead.row_join, Infix.stack_join_single]
    exact Takes.append hl (.cons hcomma ht)

end

end ExprYard
