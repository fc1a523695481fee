import ExprYard.Proofs.Grammar.Cutting
import ExprYard.Proofs.Grammar.Language
import Mathlib.Data.List.Forall2

/-!
# The arguments of calls

Every call in the trees of a source is written out among its tokens, with parentheses that match
each other, and its arguments are the trees of what is written between those parentheses: one for
each stretch between two commas that are in no parentheses of their own, in the same order. Each
case of the grammar puts its own tokens around what is written out in its parts, so the proof goes
down the derivation (`Expr.written`).

There is one exception. A list of nothing but parentheses, such as the one of `f(())`, is the empty
tuple, and a call that has it has no arguments, just as if nothing were written there.
-/

namespace ExprYard

/-! ## Nodes of trees -/

/-- A tree has a node, at its root or below. -/
inductive Tree.Contains : Tree → Tree → Prop where
  | root (n : Tree) : n.Contains n
  | child {t c n : Tree} (hc : c ∈ t.children) (h : c.Contains n) : t.Contains n

namespace Tree

variable {n : Tree} {t : Token} {cs : List Tree} {tuple : Bool}

theorem contains_node (h : (Tree.node t cs tuple).Contains n) :
    n = .node t cs tuple ∨ ∃ c ∈ cs, c.Contains n := by
  cases h with
  | root => exact .inl rfl
  | child hc h => exact .inr ⟨_, hc, h⟩

theorem contains_leaf (h : (Tree.leaf t).Contains n) : n = .leaf t := by
  rcases contains_node h with h | ⟨c, hc, -⟩
  · exact h
  · cases hc

end Tree

/-- The operands of a row. -/
def Infix.items {α : Type} (i : Infix α) : List α :=
  i.first :: i.rest.map Prod.snd

theorem Infix.items_join {α : Type} (i : Infix α) (b : Link) (j : Infix α) :
    (i.join b j).items = i.items ++ j.items := by
  simp [Infix.items, Infix.join]

/-- A node of the tree of a row is that of one of its operators, or it is in one of its operands. -/
theorem Infix.contains_tree (i : Infix Tree) {n : Tree} (h : i.tree.Contains n) :
    (∃ b ∈ i.links, n.token = b.token) ∨ ∃ x ∈ i.items, x.Contains n := by
  rw [Infix.tree] at h
  split at h
  · exact .inr ⟨i.first, List.mem_cons_self, h⟩
  · rename_i pre y post hr
    obtain ⟨hrest, -, -⟩ := Infix.of_root hr
    have hlinks : i.links = (Infix.mk i.first pre).links ++ y.1 :: (Infix.mk y.2 post).links := by
      simp [Infix.links, hrest]
    have hitems : i.items = (Infix.mk i.first pre).items ++ (Infix.mk y.2 post).items := by
      simp [Infix.items, hrest]
    rw [hlinks, hitems]
    rcases Tree.contains_node h with rfl | ⟨c, hc, h⟩
    · exact .inl ⟨y.1, List.mem_append_right _ List.mem_cons_self, rfl⟩
    · rcases List.mem_cons.mp hc with rfl | hc
      · rcases Infix.contains_tree ⟨i.first, pre⟩ h with ⟨b, hb, hn⟩ | ⟨x, hx, hn⟩
        · exact .inl ⟨b, List.mem_append_left _ hb, hn⟩
        · exact .inr ⟨x, List.mem_append_left _ hx, hn⟩
      · rw [List.mem_singleton.mp hc] at h
        rcases Infix.contains_tree ⟨y.2, post⟩ h with ⟨b, hb, hn⟩ | ⟨x, hx, hn⟩
        · exact .inl ⟨b, List.mem_append_right _ (List.mem_cons_of_mem _ hb), hn⟩
        · exact .inr ⟨x, List.mem_append_right _ hx, hn⟩
termination_by i.rest.length
decreasing_by
  all_goals
    simp only [hrest, List.length_append, List.length_cons]
    omega

/-! ## Calls that are written out -/

/-- A called name, or the word `tuple`. -/
def Kind.IsCall (kind : Kind) : Prop :=
  kind = .function ∨ kind = .type .tuple

/-- Nothing with a binding is called. -/
theorem Kind.IsCall.binding_eq_none {kind : Kind} (h : kind.IsCall) : kind.binding = none := by
  rcases h with rfl | rfl <;> rfl

/-- What stands between two commas in the list of a call, and its tree: expressions in the list of
a called name, and types in that of the word `tuple`. -/
inductive Entry : Kind → List Token → Tree → Prop where
  | expression (e : Expr) : Entry .function e.tokens e.tree
  | type (t : Ty) : Entry (.type .tuple) t.tokens t.tree

/-- A parenthesis, of whichever kind. -/
def Token.isParen (t : Token) : Bool :=
  t.kind = .openParen || t.kind = .closeParen

/-- The arguments that the list of a call gives it: none if nothing but parentheses are in it, and
else one for each piece. -/
def Answers (kind : Kind) (inner : List Token) (arguments : List Tree) : Prop :=
  if inner.all Token.isParen then arguments = []
  else List.Forall₂ (Entry kind) (pieces 0 inner) arguments

/-- The node of a call is written out among tokens: its own token, and its list between parentheses
that match each other. -/
def WrittenIn (n : Tree) (ts : List Token) : Prop :=
  ∃ pre opening inner closing post,
    ts = pre ++ n.token :: opening :: (inner ++ closing :: post) ∧ opening.kind = .openParen ∧
      closing.kind = .closeParen ∧ Matched 0 inner ∧ Answers n.token.kind inner n.arguments

theorem WrittenIn.prepend {n : Tree} {ts : List Token} (h : WrittenIn n ts)
    (before : List Token) : WrittenIn n (before ++ ts) := by
  obtain ⟨pre, opening, inner, closing, post, rfl, h⟩ := h
  exact ⟨before ++ pre, opening, inner, closing, post, by simp, h⟩

theorem WrittenIn.append {n : Tree} {ts : List Token} (h : WrittenIn n ts)
    (after : List Token) : WrittenIn n (ts ++ after) := by
  obtain ⟨pre, opening, inner, closing, post, rfl, h⟩ := h
  exact ⟨pre, opening, inner, closing, post ++ after, by simp, h⟩

/-! ## The elements of a list -/

theorem Exprs.elements_tree (l : Exprs) : (l.tree false).elements = l.items.map Expr.tree := by
  cases l with
  | one e => exact Tree.elements_of_not_isSeparator e.not_isSeparator
  | more l comma e =>
    unfold Exprs.items
    rw [List.map_append, ← l.elements_tree]
    exact Tree.elements_comma comma.2 _ _

theorem Ty.not_isSeparator (t : Ty) : t.tree.isSeparator = false := by
  cases t with
  | scalar t =>
    obtain ⟨word, hk, -⟩ := t.2
    exact Tree.not_isSeparator_of_kind (by rw [hk]; exact fun hk => by cases hk)
  | tuple word opening l closing =>
    exact Tree.not_isSeparator_of_kind (word.ne (by decide))

theorem Tys.elements_tree (l : Tys) : l.tree.elements = l.items.map Ty.tree := by
  cases l with
  | one t => exact Tree.elements_of_not_isSeparator t.not_isSeparator
  | more l comma t =>
    unfold Tys.items
    rw [List.map_append, ← l.elements_tree]
    exact Tree.elements_comma comma.2 _ _

/-! ## The empty tuple -/

theorem Token.isParen_eq_false {t : Token} (hopen : t.kind ≠ .openParen)
    (hclose : t.kind ≠ .closeParen) : t.isParen = false := by
  simp [Token.isParen, hopen, hclose]

theorem Tree.isUnit_node {t : Token} {cs : List Tree} {tuple : Bool} (h : t.kind ≠ .emptyTuple) :
    (Tree.node t cs tuple).isUnit = false := by
  simp [Tree.isUnit, Tree.token, h]

/-- Tokens with one that is no parenthesis. -/
theorem all_isParen_eq_false {t : Token} (ts us : List Token) (hopen : t.kind ≠ .openParen)
    (hclose : t.kind ≠ .closeParen) : (ts ++ t :: us).all Token.isParen = false := by
  rw [List.all_append, List.all_cons, Token.isParen_eq_false hopen hclose, Bool.false_and,
    Bool.and_false]

mutual

/-- The empty tuple is written with nothing but parentheses, and nothing else is. -/
theorem Unary.isUnit_tree : ∀ u : Unary, u.tree.isUnit = u.tokens.all Token.isParen
  | .bang b u => by
    have hall : (b.1 :: u.tokens).all Token.isParen = false :=
      all_isParen_eq_false [] _ (b.ne (by decide)) (b.ne (by decide))
    refine Eq.trans ?_ hall.symm
    exact Tree.isUnit_node (b.ne (by decide))
  | .value t => by
    have hall : [t.1].all Token.isParen = false :=
      all_isParen_eq_false [] _ (t.2.ne (by decide)) (t.2.ne (by decide))
    exact (Tree.isUnit_node (t.2.ne (by decide))).trans hall.symm
  | .group opening c closing => by
    have hopening : opening.1.isParen = true := by simp [Token.isParen, opening.2]
    have hclosing : closing.1.isParen = true := by simp [Token.isParen, closing.2]
    show (c.tree true closing.1).isUnit = (opening.1 :: (c.tokens ++ [closing.1])).all Token.isParen
    rw [List.all_cons, List.all_append, hopening, Bool.true_and, List.all_cons, hclosing,
      List.all_nil, Bool.and_true, Bool.and_true]
    cases c with
    | empty => rfl
    | list l => exact l.isUnit_tree true
  | .call f opening c closing => by
    have hall : (f.1 :: opening.1 :: (c.tokens ++ [closing.1])).all Token.isParen = false :=
      all_isParen_eq_false [] _ (f.ne (by decide)) (f.ne (by decide))
    refine Eq.trans ?_ hall.symm
    exact Tree.isUnit_node (f.ne (by decide))

theorem Exprs.isUnit_tree : ∀ (l : Exprs) (tuple : Bool),
    (l.tree tuple).isUnit = l.tokens.all Token.isParen
  | .one e, tuple => e.isUnit_tree
  | .more l comma e, tuple => by
    have hall : (l.tokens ++ comma.1 :: e.tokens).all Token.isParen = false :=
      all_isParen_eq_false _ _ (comma.ne (by decide)) (comma.ne (by decide))
    refine Eq.trans ?_ hall.symm
    exact Tree.isUnit_node (comma.ne (by decide))

theorem Expr.isUnit_tree : ∀ e : Expr, e.tree.isUnit = e.tokens.all Token.isParen
  | .unary u => by
    show (Infix.single u.tree).tree.isUnit = _
    rw [Infix.tree_single]
    exact u.isUnit_tree
  | .binary e op u => by
    have hall : (e.tokens ++ op.token :: u.tokens).all Token.isParen = false :=
      all_isParen_eq_false _ _ (by rw [op.kind]; exact fun hk => by cases hk)
        (by rw [op.kind]; exact fun hk => by cases hk)
    have hrest : (Expr.binary e op u).operands.rest ≠ [] := by
      simp [Expr.operands, Infix.join]
    obtain ⟨b, hb, l, r, htree⟩ := Infix.tree_of_rest_ne_nil hrest
    refine Eq.trans ?_ hall.symm
    show (Expr.binary e op u).operands.tree.isUnit = false
    rw [htree]
    refine Tree.isUnit_node fun hk => ?_
    have hbound := b.bound
    rw [hk] at hbound
    cases hbound

end

/-! ## What is between the parentheses of a call -/

theorem answers_of_all {kind : Kind} {inner : List Token} {arguments : List Tree}
    (h : inner.all Token.isParen = true) (ha : arguments = []) : Answers kind inner arguments := by
  unfold Answers
  rw [if_pos h]
  exact ha

theorem answers_of_pieces {kind : Kind} {inner : List Token} {arguments : List Tree}
    (h : inner.all Token.isParen = false)
    (ha : List.Forall₂ (Entry kind) (pieces 0 inner) arguments) :
    Answers kind inner arguments := by
  unfold Answers
  rw [if_neg (by rw [h]; decide)]
  exact ha

theorem Contents.matched (c : Contents) : Matched 0 c.tokens := by
  cases c with
  | empty => rfl
  | list l => exact l.listed.matched

/-- The arguments of a called name. -/
theorem Contents.answers (f closing : Token) (c : Contents) :
    Answers .function c.tokens (Tree.branch f [c.tree false closing]).arguments := by
  cases c with
  | empty => exact answers_of_all rfl rfl
  | list l =>
    have hunit := l.isUnit_tree false
    show Answers .function l.tokens
      (if (l.tree false).isUnit = true then [] else (l.tree false).elements)
    rw [hunit]
    cases hall : l.tokens.all Token.isParen with
    | true => exact answers_of_all hall rfl
    | false =>
      refine answers_of_pieces hall ?_
      show List.Forall₂ _ _ (l.tree false).elements
      rw [l.listed.pieces_eq, l.elements_tree, List.forall₂_map_left_iff,
        List.forall₂_map_right_iff, List.forall₂_same]
      exact fun e _ => .expression e

mutual

theorem Ty.not_all_isParen : ∀ t : Ty, t.tokens.all Token.isParen = false
  | .scalar t => by
    obtain ⟨word, hk, -⟩ := t.2
    exact all_isParen_eq_false [] [] (by rw [hk]; exact fun hk => by cases hk)
      (by rw [hk]; exact fun hk => by cases hk)
  | .tuple word opening l closing =>
    all_isParen_eq_false [] _ (word.ne (by decide)) (word.ne (by decide))

theorem Tys.not_all_isParen : ∀ l : Tys, l.tokens.all Token.isParen = false
  | .one t => t.not_all_isParen
  | .more l comma t =>
    all_isParen_eq_false _ _ (comma.ne (by decide)) (comma.ne (by decide))

end

theorem Tys.not_isUnit (l : Tys) : l.tree.isUnit = false := by
  cases l with
  | one t =>
    cases t with
    | scalar t =>
      obtain ⟨word, hk, -⟩ := t.2
      exact Tree.isUnit_node (by rw [hk]; exact fun hk => by cases hk)
    | tuple word opening l closing => exact Tree.isUnit_node (word.ne (by decide))
  | more l comma t => exact Tree.isUnit_node (comma.ne (by decide))

/-- The element types of the word `tuple`. -/
theorem Tys.answers (word : Token) (l : Tys) :
    Answers (.type .tuple) l.tokens (Tree.branch word [l.tree]).arguments := by
  refine answers_of_pieces l.not_all_isParen ?_
  show List.Forall₂ _ _ (if l.tree.isUnit = true then [] else l.tree.elements)
  rw [if_neg (by rw [l.not_isUnit]; decide), l.listed.pieces_eq, l.elements_tree,
    List.forall₂_map_left_iff, List.forall₂_map_right_iff, List.forall₂_same]
  exact fun t _ => .type t

/-! ## Calls of the grammar -/

variable {n : Tree}

theorem not_isCall_of_binding {t : Token} {binding : Binding} (hb : t.kind.binding = some binding)
    (hn : n.token = t) : ¬ n.token.kind.IsCall := by
  intro h
  have hnone := h.binding_eq_none
  rw [hn, hb] at hnone
  cases hnone

/-- Where an operator is at the root of a tree, a call in it is below. -/
theorem contains_below {t : Token} {binding : Binding} {cs : List Tree} {tuple : Bool}
    (hb : t.kind.binding = some binding) (h : (Tree.node t cs tuple).Contains n)
    (hk : n.token.kind.IsCall) : ∃ c ∈ cs, c.Contains n := by
  rcases Tree.contains_node h with rfl | hbelow
  · exact (not_isCall_of_binding hb rfl hk).elim
  · exact hbelow

/-- A call in the tree of an expression is in one of its operands. -/
theorem Expr.exists_item (e : Expr) (h : e.tree.Contains n) (hk : n.token.kind.IsCall) :
    ∃ x ∈ e.operands.items, x.Contains n := by
  rcases e.operands.contains_tree h with ⟨b, -, hn⟩ | hitem
  · exact (not_isCall_of_binding b.bound hn hk).elim
  · exact hitem

mutual

theorem Unary.written : ∀ u : Unary, u.tree.Contains n → n.token.kind.IsCall →
    WrittenIn n u.tokens
  | .bang b u, h, hk => by
    have hb : b.1.kind.binding = some Operator.not.binding := by
      rw [b.2]
      rfl
    obtain ⟨c, hc, h⟩ := contains_below hb h hk
    rw [List.mem_singleton.mp hc] at h
    exact (u.written h hk).prepend [b.1]
  | .value t, h, hk => by
    rw [Tree.contains_leaf h] at hk
    rcases hk with hk | hk
    · exact (t.2.ne (by decide) hk).elim
    · exact (t.2.ne (by decide) hk).elim
  | .group opening c closing, h, hk => ((c.written h hk).append [closing.1]).prepend [opening.1]
  | .call f opening c closing, h, hk => by
    rcases Tree.contains_node h with rfl | ⟨t, ht, h⟩
    · refine ⟨[], opening.1, c.tokens, closing.1, [], rfl, opening.2, closing.2, c.matched, ?_⟩
      show Answers f.1.kind c.tokens _
      rw [f.2]
      exact c.answers f.1 closing.1
    · rw [List.mem_singleton.mp ht] at h
      exact ((c.written h hk).append [closing.1]).prepend [f.1, opening.1]

theorem Contents.written : ∀ (c : Contents) {tuple : Bool} {closing : Token},
    (c.tree tuple closing).Contains n → n.token.kind.IsCall → WrittenIn n c.tokens
  | .empty, tuple, closing, h, hk => by
    rw [Tree.contains_leaf h] at hk
    rcases hk with hk | hk <;> cases hk
  | .list l, tuple, closing, h, hk => l.written h hk

theorem Exprs.written : ∀ (l : Exprs) {tuple : Bool}, (l.tree tuple).Contains n →
    n.token.kind.IsCall → WrittenIn n l.tokens
  | .one e, tuple, h, hk => by
    obtain ⟨x, hx, hn⟩ := e.exists_item h hk
    exact e.written x hx hn hk
  | .more l comma e, tuple, h, hk => by
    obtain ⟨c, hc, h⟩ := contains_below (commaLink comma).bound h hk
    rcases List.mem_cons.mp hc with rfl | hc
    · exact (l.written h hk).append (comma.1 :: e.tokens)
    · rw [List.mem_singleton.mp hc] at h
      obtain ⟨x, hx, hn⟩ := e.exists_item h hk
      exact ((e.written x hx hn hk).prepend [comma.1]).prepend l.tokens

/-- A call in an operand of an expression is written out in the expression. -/
theorem Expr.written : ∀ (e : Expr), ∀ x ∈ e.operands.items, x.Contains n →
    n.token.kind.IsCall → WrittenIn n e.tokens
  | .unary u, x, hx, h, hk => by
    rw [List.mem_singleton.mp hx] at h
    exact u.written h hk
  | .binary e op u, x, hx, h, hk => by
    unfold Expr.operands at hx
    rw [Infix.items_join] at hx
    rcases List.mem_append.mp hx with hx | hx
    · exact (e.written x hx h hk).append (op.token :: u.tokens)
    · rw [List.mem_singleton.mp hx] at h
      exact ((u.written h hk).prepend [op.token]).prepend e.tokens

end

mutual

theorem Ty.written : ∀ t : Ty, t.tree.Contains n → n.token.kind.IsCall → WrittenIn n t.tokens
  | .scalar t, h, hk => by
    rw [Tree.contains_leaf h] at hk
    exfalso
    obtain ⟨word, hword, hne⟩ := t.2
    have hkind : t.1.kind.IsCall := hk
    rw [hword] at hkind
    rcases hkind with hkind | hkind
    · cases hkind
    · cases hkind
      exact hne rfl
  | .tuple word opening l closing, h, hk => by
    rcases Tree.contains_node h with rfl | ⟨t, ht, h⟩
    · refine ⟨[], opening.1, l.tokens, closing.1, [], rfl, opening.2, closing.2,
        l.listed.matched, ?_⟩
      show Answers word.1.kind l.tokens _
      rw [word.2]
      exact l.answers word.1
    · rw [List.mem_singleton.mp ht] at h
      exact ((l.written h hk).append [closing.1]).prepend [word.1, opening.1]

theorem Tys.written : ∀ l : Tys, l.tree.Contains n → n.token.kind.IsCall → WrittenIn n l.tokens
  | .one t, h, hk => t.written h hk
  | .more l comma t, h, hk => by
    obtain ⟨c, hc, h⟩ := contains_below (commaLink comma).bound h hk
    rcases List.mem_cons.mp hc with rfl | hc
    · exact (l.written h hk).append (comma.1 :: t.tokens)
    · rw [List.mem_singleton.mp hc] at h
      exact ((t.written h hk).prepend [comma.1]).prepend l.tokens

end

/-! ## Calls of a source -/

theorem Target.written (target : Target) (h : target.tree.Contains n) (hk : n.token.kind.IsCall) :
    WrittenIn n target.tokens := by
  have hname : ∀ t : Token.Is .identifier, ¬ (Tree.leaf t.1).Contains n := by
    intro t h
    rw [Tree.contains_leaf h] at hk
    have hkind : t.1.kind.IsCall := hk
    rw [t.2] at hkind
    rcases hkind with hkind | hkind <;> cases hkind
  obtain ⟨name, type⟩ := target
  cases type with
  | none => exact (hname name h).elim
  | some typed =>
    obtain ⟨colon, t⟩ := typed
    obtain ⟨c, hc, h⟩ := contains_below (colonLink colon).bound h hk
    rcases List.mem_cons.mp hc with rfl | hc
    · exact (hname name h).elim
    · rw [List.mem_singleton.mp hc] at h
      exact (t.written h hk).prepend [name.1, colon.1]

theorem Stmt.written (s : Stmt) (h : s.tree.Contains n) (hk : n.token.kind.IsCall) :
    WrittenIn n s.tokens := by
  cases s with
  | expr e =>
    obtain ⟨x, hx, hn⟩ := e.exists_item h hk
    exact e.written x hx hn hk
  | declaration head e =>
    obtain ⟨word, target, assign⟩ := head
    rcases Tree.contains_node h with rfl | ⟨c, hc, h⟩
    · have hkind : word.1.kind.IsCall := hk
      rw [word.2] at hkind
      rcases hkind with hkind | hkind <;> cases hkind
    · rw [List.mem_singleton.mp hc] at h
      obtain ⟨d, hd, h⟩ := contains_below (assignLink assign).bound h hk
      rcases List.mem_cons.mp hd with rfl | hd
      · exact (((target.written h hk).append [assign.1]).prepend [word.1]).append e.tokens
      · rw [List.mem_singleton.mp hd] at h
        obtain ⟨x, hx, hn⟩ := e.exists_item h hk
        exact (e.written x hx hn hk).prepend (LetHead.mk word target assign).tokens

/-- The tokens of a statement are among those of its program. -/
theorem Program.exists_around {program : Program} {s : Stmt} (h : s ∈ program.statements) :
    ∃ before after, program.tokens = before ++ (s.tokens ++ after) := by
  obtain ⟨closed, last⟩ := program
  rcases List.mem_append.mp h with h | h
  · obtain ⟨⟨s, semicolon⟩, hx, rfl⟩ := List.mem_map.mp h
    obtain ⟨xs, ys, rfl⟩ := List.append_of_mem hx
    refine ⟨xs.flatMap fun x => x.1.tokens ++ [x.2.1], [semicolon.1] ++
      ys.flatMap (fun x => x.1.tokens ++ [x.2.1]) ++ last.elim [] Stmt.tokens, ?_⟩
    show (xs ++ (s, semicolon) :: ys).flatMap (fun x => x.1.tokens ++ [x.2.1]) ++
      last.elim [] Stmt.tokens = _
    rw [List.flatMap_append, List.flatMap_cons]
    simp only [List.append_assoc]
  · have hlast : last = some s := Option.mem_toList.mp h
    rw [hlast]
    refine ⟨closed.flatMap fun x => x.1.tokens ++ [x.2.1], [], ?_⟩
    rw [List.append_nil]
    rfl

/-- Every call and every tuple type in the trees of a source is written out among its tokens, with
its list between the parentheses behind it. It has one argument for each stretch between the commas
of that list, in the same order and with the tree of that stretch, which makes one more than there
are such commas. It has none if nothing is in the list but parentheses, and then it may be that
nothing is, or that the empty tuple is. -/
theorem call_arguments (source : List Char) (file : String) (trees : List Tree)
    (h : (parseLexer (Lexer.ofRunes source file)).1.2 = .ok trees) (t : Tree) (ht : t ∈ trees)
    (n : Tree) (hn : t.Contains n)
    (hk : n.token.kind = .function ∨ n.token.kind = .type .tuple) :
    ∃ pre opening inner closing post,
      (Lexer.ofRunes source file).tokens.1
          = pre ++ n.token :: opening :: (inner ++ closing :: post) ∧
        opening.kind = .openParen ∧ closing.kind = .closeParen ∧ Matched 0 inner ∧
        (inner.all Token.isParen = true → n.arguments = []) ∧
        (inner.all Token.isParen = false →
          List.Forall₂ (Entry n.token.kind) (pieces 0 inner) n.arguments ∧
            n.arguments.length = commas 0 inner + 1) := by
  obtain ⟨-, program, hprogram⟩ := exists_program_of_ok h
  have htrees := parseLexer_of_program hprogram
  rw [h] at htrees
  cases htrees
  obtain ⟨s, hs, rfl⟩ := List.mem_map.mp ht
  obtain ⟨before, after, haround⟩ := Program.exists_around hs
  obtain ⟨pre, opening, inner, closing, post, htokens, hopening, hclosing, hmatched, hanswers⟩ :=
    ((s.written hn hk).append after).prepend before
  refine ⟨pre, opening, inner, closing, post, ?_, hopening, hclosing, hmatched, fun hall => ?_,
    fun hall => ?_⟩
  · rw [← hprogram, haround, htokens]
  · unfold Answers at hanswers
    rwa [if_pos hall] at hanswers
  · unfold Answers at hanswers
    rw [if_neg (by rw [hall]; decide)] at hanswers
    exact ⟨hanswers, by rw [← hanswers.length_eq, length_pieces]⟩

/-- The tree of `f(a,())`. -/
def callWithUnit : Tree :=
  .branch ⟨.function, "f", 0, 1, "shell"⟩ [.branch ⟨.keyword .comma, ",", 3, 4, "shell"⟩
    [.leaf ⟨.identifier, "a", 2, 3, "shell"⟩, .unit ⟨5, 6, "shell"⟩]]

/-- The two arguments of `f(a,())` are those of its list. -/
theorem call_arguments_unit :
    ∃ pre opening inner closing post,
      (Lexer.ofRunes ['f', '(', 'a', ',', '(', ')', ')'] "shell").tokens.1
          = pre ++ callWithUnit.token :: opening :: (inner ++ closing :: post) ∧
        Matched 0 inner ∧
        (inner.all Token.isParen = false → callWithUnit.arguments.length = commas 0 inner + 1) := by
  obtain ⟨pre, opening, inner, closing, post, htokens, -, -, hmatched, -, hpieces⟩ :=
    call_arguments ['f', '(', 'a', ',', '(', ')', ')'] "shell" [callWithUnit] (by decide +kernel)
      callWithUnit List.mem_cons_self callWithUnit (.root callWithUnit) (.inl rfl)
  exact ⟨pre, opening, inner, closing, post, htokens, hmatched, fun hall => (hpieces hall).2⟩

/-- The empty tuple as the only argument is lost: what is written between the parentheses of
`f(())` is one piece, the empty tuple, and the call has no arguments. -/
theorem unit_argument_lost :
    (parseLexer (Lexer.ofRunes ['f', '(', '(', ')', ')'] "shell")).1.2
        = .ok [.branch ⟨.function, "f", 0, 1, "shell"⟩ [.unit ⟨3, 4, "shell"⟩]] ∧
      (Lexer.ofRunes ['f', '(', '(', ')', ')'] "shell").tokens.1
        = ⟨.function, "f", 0, 1, "shell"⟩ :: ⟨.openParen, "(", 1, 2, "shell"⟩ ::
          ([⟨.openParen, "(", 2, 3, "shell"⟩, ⟨.closeParen, ")", 3, 4, "shell"⟩] ++
            [⟨.closeParen, ")", 4, 5, "shell"⟩]) ∧
      (pieces 0 [⟨.openParen, "(", 2, 3, "shell"⟩, ⟨.closeParen, ")", 3, 4, "shell"⟩]).length = 1 ∧
      (Tree.branch ⟨.function, "f", 0, 1, "shell"⟩ [.unit ⟨3, 4, "shell"⟩]).arguments = [] := by
  decide +kernel

end ExprYard
