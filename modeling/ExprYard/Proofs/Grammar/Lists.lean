import ExprYard.Proofs.Chains
import ExprYard.Proofs.Grammar.Syntax

/-!
# Lists as rows of operands

To a parser a list is one long row of operands: commas bind more loosely than the operators of an
expression, so the tree of that row is the chain of the list (`Exprs.tree_operands`). That takes the
operators of the expressions to be none of the comma's own, which is a matter of spelling: a lexer
never reads a comma as an operator. And to close the chain of a list is to flag its links, and
nothing within its elements (`Exprs.closeTuple_tree`).
-/

namespace ExprYard

/-- No token is an operator that is written like a comma. -/
def Uncomma (ts : List Token) : Prop :=
  ∀ t ∈ ts, t.kind ≠ .operator .comma

theorem uncomma_append {ts us : List Token} : Uncomma (ts ++ us) ↔ Uncomma ts ∧ Uncomma us :=
  List.forall_mem_append

theorem uncomma_cons {t : Token} {ts : List Token} :
    Uncomma (t :: ts) ↔ t.kind ≠ .operator .comma ∧ Uncomma ts :=
  List.forall_mem_cons

/-- Every operator of the language but the comma binds more tightly than that. -/
theorem Operator.precedence_comma_lt {op : Operator} (h : op ≠ .comma) :
    Operator.comma.precedence < op.precedence := by
  cases op <;> first | decide | exact (h rfl).elim

/-- A comma does not yield to an operator of an expression. -/
theorem Expr.not_comma_yieldsTo {e : Expr} (h : Uncomma e.tokens)
    (comma : Token.Is (.keyword .comma)) :
    ∀ b ∈ e.operands.links, ¬ (commaLink comma).yieldsTo b = true := by
  intro b hb hy
  obtain ⟨t, rfl, ht⟩ := e.links_operands b hb
  have hne : t.op ≠ .comma := by
    rintro heq
    exact h t.token ht (by rw [t.kind, heq])
  have hp := Operator.precedence_comma_lt hne
  rcases Link.yieldsTo_iff.mp hy with hlt | ⟨heq, -⟩
  · exact Nat.lt_asymm hp hlt
  · exact Nat.ne_of_lt hp heq.symm

/-! ## The row of a list -/

/-- The operands of all expressions of a list, with its commas between them. -/
def Exprs.operands : Exprs → Infix Tree
  | .one e => e.operands
  | .more l comma e => l.operands.join (commaLink comma) e.operands

/-- Whatever joins operands in a list yields to a comma behind it. -/
theorem Link.yieldsTo_comma {b : Link} (h : Operator.comma.precedence ≤ b.binding.precedence)
    (comma : Token.Is (.keyword .comma)) : b.yieldsTo (commaLink comma) = true := by
  rw [Link.yieldsTo_iff]
  rcases Nat.lt_or_eq_of_le h with hlt | heq
  · exact .inl hlt
  · exact .inr ⟨heq, rfl⟩

theorem BinaryToken.precedence_comma_le (t : BinaryToken) :
    Operator.comma.precedence ≤ t.link.binding.precedence := by
  show _ ≤ t.op.precedence
  cases t.op <;> decide

theorem Exprs.precedence_links (l : Exprs) :
    ∀ b ∈ l.operands.links, Operator.comma.precedence ≤ b.binding.precedence := by
  have hexpr : ∀ (e : Expr), ∀ b ∈ e.operands.links,
      Operator.comma.precedence ≤ b.binding.precedence := by
    intro e b hb
    obtain ⟨t, rfl, -⟩ := e.links_operands b hb
    exact t.precedence_comma_le
  cases l with
  | one e => exact hexpr e
  | more l comma e =>
    intro b hb
    unfold Exprs.operands at hb
    rw [Infix.links_join] at hb
    rcases List.mem_append.mp hb with hb | hb
    · exact l.precedence_links b hb
    · rcases List.mem_cons.mp hb with rfl | hb
      · exact Nat.le_refl _
      · exact hexpr e b hb

/-- The tree of the row of a list is the chain of the list. -/
theorem Exprs.tree_operands (l : Exprs) (h : Uncomma l.tokens) :
    l.operands.tree = l.tree false := by
  cases l with
  | one e => rfl
  | more l comma e =>
    unfold Exprs.tokens at h
    obtain ⟨hl, he⟩ := uncomma_append.mp h
    unfold Exprs.operands Exprs.tree
    rw [Infix.tree_join, l.tree_operands hl]
    · rfl
    · exact fun b hb => Link.yieldsTo_comma (l.precedence_links b hb) comma
    · exact Expr.not_comma_yieldsTo (uncomma_cons.mp he).2 comma

/-! ## Closing the chain -/

mutual

theorem Unary.not_isSeparator : ∀ u : Unary, u.tree.isSeparator = false
  | .bang b u => Tree.not_isSeparator_of_kind (by rw [b.2]; decide)
  | .value t => by
    refine Tree.not_isSeparator_of_kind ?_
    intro hk
    rcases t.2 with h | h
    · rw [hk] at h
      cases h
    · rw [hk] at h
      cases h
  | .group opening .empty closing => Tree.not_isSeparator_of_kind (fun hk => by cases hk)
  | .group opening (.list l) closing => l.not_isSeparator
  | .call f opening c closing => Tree.not_isSeparator_of_kind (by rw [f.2]; decide)

/-- The chain of a list that is one value has no open link at its root. -/
theorem Exprs.not_isSeparator : ∀ l : Exprs, (l.tree true).isSeparator = false
  | .one e => e.not_isSeparator
  | .more l comma e => by simp [Exprs.tree, Tree.isSeparator, Tree.tuple]

theorem Expr.not_isSeparator : ∀ e : Expr, e.tree.isSeparator = false
  | .unary u => by
    show (Infix.single u.tree).tree.isSeparator = false
    rw [Infix.tree_single]
    exact u.not_isSeparator
  | .binary e op u => by
    obtain ⟨b, hb, l, r, htree⟩ := Infix.tree_of_rest_ne_nil (i := (Expr.binary e op u).operands)
      (by simp [Expr.operands, Infix.join])
    obtain ⟨t, rfl, -⟩ := Expr.links_operands _ b hb
    show (Expr.binary e op u).operands.tree.isSeparator = false
    rw [htree]
    refine Tree.not_isSeparator_of_kind ?_
    rw [show t.link.token = t.token from rfl, t.kind]
    exact fun hk => by cases hk

end

/-- Closing the chain of a list flags its links. -/
theorem Exprs.closeTuple_tree (l : Exprs) : (l.tree false).closeTuple = l.tree true := by
  cases l with
  | one e => exact Tree.closeTuple_of_not_isSeparator e.not_isSeparator
  | more l comma e =>
    unfold Exprs.tree
    rw [Tree.closeTuple_comma comma.2, l.closeTuple_tree]

/-! ## Types -/

/-- The types of a list, with its commas between them. -/
def Tys.operands : Tys → Infix Tree
  | .one t => .single t.tree
  | .more l comma t => l.operands.join (commaLink comma) (.single t.tree)

theorem Tys.precedence_links (l : Tys) :
    ∀ b ∈ l.operands.links, Operator.comma.precedence ≤ b.binding.precedence := by
  cases l with
  | one t =>
    intro b hb
    cases hb
  | more l comma t =>
    intro b hb
    unfold Tys.operands at hb
    rw [Infix.links_join] at hb
    rcases List.mem_append.mp hb with hb | hb
    · exact l.precedence_links b hb
    · rw [List.mem_singleton.mp hb]
      exact Nat.le_refl _

/-- The tree of the row of types is their chain. -/
theorem Tys.tree_operands (l : Tys) : l.operands.tree = l.tree := by
  cases l with
  | one t => exact Infix.tree_single t.tree
  | more l comma t =>
    unfold Tys.operands Tys.tree
    rw [Infix.tree_join, l.tree_operands, Infix.tree_single]
    · rfl
    · exact fun b hb => Link.yieldsTo_comma (l.precedence_links b hb) comma
    · intro b hb
      cases hb

/-! ## Declarations -/

/-- The row of what is declared. -/
def Target.operands (target : Target) : Infix Tree :=
  target.type.elim (.single (.leaf target.name.1)) fun (colon, t) =>
    (Infix.single (.leaf target.name.1)).join (colonLink colon) (.single t.tree)

theorem Target.tree_operands (target : Target) : target.operands.tree = target.tree := by
  obtain ⟨name, type⟩ := target
  cases type with
  | none => exact Infix.tree_single _
  | some typed =>
    obtain ⟨colon, t⟩ := typed
    show ((Infix.single (.leaf name.1)).join (colonLink colon) (.single t.tree)).tree = _
    rw [Infix.tree_join, Infix.tree_single, Infix.tree_single]
    · rfl
    · intro b hb
      cases hb
    · intro b hb
      cases hb

/-- The row of a declaration is split at its assignment sign. -/
theorem tree_declaration (head : LetHead) (e : Expr) :
    (head.target.operands.join (assignLink head.assign) e.operands).tree
      = .branch head.assign.1 [head.target.tree, e.tree] := by
  rw [Infix.tree_join, Target.tree_operands]
  · rfl
  · intro b hb
    obtain ⟨word, ⟨name, type⟩, assign⟩ := head
    cases type with
    | none => cases hb
    | some typed =>
      obtain ⟨colon, t⟩ := typed
      have hb : b = colonLink colon := List.mem_singleton.mp hb
      rw [hb]
      rfl
  · intro b hb hy
    obtain ⟨t, rfl, -⟩ := e.links_operands b hb
    have hp := t.precedence_comma_le
    have hc : 0 < Operator.comma.precedence := by decide
    rcases Link.yieldsTo_iff.mp hy with hlt | ⟨heq, -⟩
    · exact Nat.not_lt_zero _ hlt
    · rw [heq] at hp
      exact Nat.lt_irrefl 0 (Nat.lt_of_lt_of_le hc hp)

end ExprYard
