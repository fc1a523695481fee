import ExprYard.Proofs.Grammar.Infix

/-!
# The grammar of programs

    program = [stmt (";" stmt)* [";"]]
    stmt    = "let" name [":" type] "=" expr | expr
    type    = scalar | "tuple" "(" type ("," type)* ")"
    expr    = unary (binary unary)*
    unary   = "!"* primary
    primary = literal | name | "(" [list] ")" | function "(" [list] ")"
    list    = expr ("," expr)*

A derivation holds the tokens that it is written with, so what it is a derivation of is a function
of it, `tokens`, and so is what it means, `tree`. No stack and no precedence climbing are involved:
an expression means what its row of operands means, and everything else is read off the derivation.
-/

namespace ExprYard

/-! ## Tokens by kind -/

/-- A token of a kind that `kinds` holds of. -/
abbrev Token.Of (kinds : Kind → Prop) := { t : Token // kinds t.kind }

/-- A token of the given kind. -/
abbrev Token.Is (kind : Kind) := Token.Of (· = kind)

/-- What stands for a value by itself in an expression. -/
def Kind.IsValue (kind : Kind) : Prop :=
  kind.isLiteral = true ∨ kind = .identifier

instance decideIsValue (kind : Kind) : Decidable kind.IsValue :=
  inferInstanceAs (Decidable (kind.isLiteral = true ∨ kind = .identifier))

/-- What stands for a value is of no kind that does not. -/
theorem Kind.IsValue.ne {kind other : Kind} (h : kind.IsValue) (ho : ¬ other.IsValue) :
    kind ≠ other :=
  fun he => ho (he ▸ h)

theorem Token.Is.ne {kind other : Kind} (t : Token.Is kind) (h : kind ≠ other) :
    t.1.kind ≠ other := by
  rw [t.2]
  exact h

/-- A type word that names a type by itself. -/
def Kind.IsScalar (kind : Kind) : Prop :=
  ∃ word, kind = .type word ∧ word ≠ .tuple

/-- A binary operator. -/
structure BinaryToken where
  token : Token
  op : Operator
  kind : token.kind = .operator op
  arity : op.arity = .binary

/-- A binary operator joins its operands. -/
def BinaryToken.link (b : BinaryToken) : Link :=
  ⟨b.token, b.op.binding, by rw [b.kind]; rfl, b.arity⟩

/-- A keyword with a binding joins what stands on its two sides. -/
def Token.Is.link {word : Keyword} (t : Token.Is (.keyword word)) (binding : Binding)
    (bound : word.binding = some binding) (arity : binding.arity = .binary) : Link :=
  ⟨t.1, binding, by rw [t.2]; exact bound, arity⟩

/-- A comma joins the elements on its two sides. -/
def commaLink (t : Token.Is (.keyword .comma)) : Link :=
  t.link Operator.comma.binding rfl rfl

/-- A colon joins a name to its type. -/
def colonLink (t : Token.Is (.keyword .typeSeparator)) : Link :=
  t.link Operator.type.binding rfl rfl

/-- The assignment sign joins what is declared to its value. -/
def assignLink (t : Token.Is (.keyword .assign)) : Link :=
  t.link ⟨0, .right, .binary⟩ rfl rfl

/-! ## Expressions -/

mutual

/-- An operand with its prefixes. -/
inductive Unary where
  | bang (b : Token.Is (.operator .not)) (operand : Unary)
  | value (t : Token.Of Kind.IsValue)
  | group (opening : Token.Is .openParen) (contents : Contents) (closing : Token.Is .closeParen)
  | call (f : Token.Is .function) (opening : Token.Is .openParen) (contents : Contents)
      (closing : Token.Is .closeParen)

/-- What stands between parentheses. -/
inductive Contents where
  | empty
  | list (l : Exprs)

/-- Expressions with commas between them. -/
inductive Exprs where
  | one (e : Expr)
  | more (l : Exprs) (comma : Token.Is (.keyword .comma)) (e : Expr)

/-- Operands with binary operators between them. -/
inductive Expr where
  | unary (u : Unary)
  | binary (e : Expr) (op : BinaryToken) (u : Unary)

end

mutual

/-- The tokens of an operand. -/
def Unary.tokens : Unary → List Token
  | .bang b u => b.1 :: u.tokens
  | .value t => [t.1]
  | .group opening c closing => opening.1 :: (c.tokens ++ [closing.1])
  | .call f opening c closing => f.1 :: opening.1 :: (c.tokens ++ [closing.1])

/-- The tokens between parentheses. -/
def Contents.tokens : Contents → List Token
  | .empty => []
  | .list l => l.tokens

/-- The tokens of a list. -/
def Exprs.tokens : Exprs → List Token
  | .one e => e.tokens
  | .more l comma e => l.tokens ++ comma.1 :: e.tokens

/-- The tokens of an expression. -/
def Expr.tokens : Expr → List Token
  | .unary u => u.tokens
  | .binary e op u => e.tokens ++ op.token :: u.tokens

end

mutual

/-- The tree of an operand. A prefix is about its own operand alone, a group is what is in it, and a
call is about its list. -/
def Unary.tree : Unary → Tree
  | .bang b u => .branch b.1 [u.tree]
  | .value t => .leaf t.1
  | .group _ c closing => c.tree true closing.1
  | .call f _ c closing => .branch f.1 [c.tree false closing.1]

/-- The tree of what stands between parentheses, the latter of which is given: the empty tuple, or
the tree of a list. -/
def Contents.tree : Contents → Bool → Token → Tree
  | .empty, _, closing => .unit closing.span
  | .list l, tuple, _ => l.tree tuple

/-- The tree of a list: a chain of commas that nests to the left, each link flagged as `tuple`
says. -/
def Exprs.tree : Exprs → Bool → Tree
  | .one e, _ => e.operands.tree
  | .more l comma e, tuple => .node comma.1 [l.tree tuple, e.operands.tree] tuple

/-- The operands of an expression and the operators between them. -/
def Expr.operands : Expr → Infix Tree
  | .unary u => .single u.tree
  | .binary e op u => e.operands.join op.link (.single u.tree)

end

/-- The tree of an expression is that of its row of operands. -/
def Expr.tree (e : Expr) : Tree :=
  e.operands.tree

/-- The operators between the operands of an expression are binary operators of its tokens. -/
theorem Expr.links_operands (e : Expr) :
    ∀ b ∈ e.operands.links, ∃ t : BinaryToken, b = t.link ∧ t.token ∈ e.tokens := by
  cases e with
  | unary u =>
    intro b hb
    cases hb
  | binary e op u =>
    intro b hb
    unfold Expr.operands at hb
    rw [Infix.links_join] at hb
    rcases List.mem_append.mp hb with hb | hb
    · obtain ⟨t, ht, hm⟩ := e.links_operands b hb
      exact ⟨t, ht, List.mem_append_left _ hm⟩
    · rw [List.mem_singleton.mp hb]
      exact ⟨op, rfl, List.mem_append_right _ List.mem_cons_self⟩

/-- Binary operators associate to the left. -/
theorem BinaryToken.associativity_link (t : BinaryToken) :
    t.link.binding.associativity = .left := by
  have ha := t.arity
  show t.op.associativity = .left
  cases ht : t.op with
  | not =>
    rw [ht] at ha
    cases ha
  | _ => rfl

/-- An expression is split at the last of the operators that bind most loosely: none before it binds
more loosely, and all behind it bind more tightly. -/
theorem Expr.tree_of_root {e : Expr} {pre post : List (Link × Tree)} {b : Link} {x : Tree}
    (h : Infix.root e.operands.rest = some (pre, (b, x), post)) :
    e.tree = .branch b.token [(Infix.mk e.operands.first pre).tree, (Infix.mk x post).tree] ∧
      (∀ y ∈ pre, b.binding.precedence ≤ y.1.binding.precedence) ∧
      ∀ y ∈ post, b.binding.precedence < y.1.binding.precedence := by
  obtain ⟨hrest, hpre, hpost⟩ := Infix.of_root h
  have hsplit : e.operands = (Infix.mk e.operands.first pre).join b ⟨x, post⟩ := by
    show e.operands = ⟨e.operands.first, pre ++ (b, x) :: post⟩
    rw [← hrest]
  refine ⟨?_, ?_, ?_⟩
  · refine (congrArg Infix.tree hsplit).trans (Infix.tree_join ?_ ?_)
    · exact List.forall_mem_map.mpr hpre
    · exact List.forall_mem_map.mpr hpost
  · intro y hy
    rcases Link.yieldsTo_iff.mp (hpre y hy) with hlt | ⟨heq, -⟩
    · exact Nat.le_of_lt hlt
    · exact Nat.le_of_eq heq
  · intro y hy
    have hlink : y.1 ∈ e.operands.links := by
      rw [Infix.links, hrest]
      exact List.mem_map_of_mem (List.mem_append_right _ (List.mem_cons_of_mem _ hy))
    obtain ⟨t, ht, -⟩ := e.links_operands y.1 hlink
    have hleft : y.1.binding.associativity = .left := by
      rw [ht]
      exact t.associativity_link
    refine Nat.lt_of_not_le fun hle => hpost y hy (Link.yieldsTo_iff.mpr ?_)
    rcases Nat.lt_or_eq_of_le hle with hlt | heq
    · exact .inl hlt
    · exact .inr ⟨heq, hleft⟩

/-! ## Declarations and programs -/

mutual

/-- A type. -/
inductive Ty where
  | scalar (t : Token.Of Kind.IsScalar)
  | tuple (word : Token.Is (.type .tuple)) (opening : Token.Is .openParen) (elements : Tys)
      (closing : Token.Is .closeParen)

/-- Types with commas between them. -/
inductive Tys where
  | one (t : Ty)
  | more (l : Tys) (comma : Token.Is (.keyword .comma)) (t : Ty)

end

mutual

/-- The tokens of a type. -/
def Ty.tokens : Ty → List Token
  | .scalar t => [t.1]
  | .tuple word opening l closing => word.1 :: opening.1 :: (l.tokens ++ [closing.1])

/-- The tokens of types. -/
def Tys.tokens : Tys → List Token
  | .one t => t.tokens
  | .more l comma t => l.tokens ++ comma.1 :: t.tokens

end

mutual

/-- The tree of a type: the word `tuple` is about the list of its element types. -/
def Ty.tree : Ty → Tree
  | .scalar t => .leaf t.1
  | .tuple word _ l _ => .branch word.1 [l.tree]

/-- The tree of types: a chain of commas that nests to the left. -/
def Tys.tree : Tys → Tree
  | .one t => t.tree
  | .more l comma t => .branch comma.1 [l.tree, t.tree]

end

/-- What is declared: a name, and maybe its type. -/
structure Target where
  name : Token.Is .identifier
  type : Option (Token.Is (.keyword .typeSeparator) × Ty)

namespace Target

def tokens (target : Target) : List Token :=
  target.name.1 :: target.type.elim [] fun (colon, t) => colon.1 :: t.tokens

/-- The tree of what is declared: a name, or a colon with a name and a type. -/
def tree (target : Target) : Tree :=
  target.type.elim (.leaf target.name.1) fun (colon, t) =>
    .branch colon.1 [.leaf target.name.1, t.tree]

end Target

/-- The head of a declaration. -/
structure LetHead where
  word : Token.Is (.keyword .letWord)
  target : Target
  assign : Token.Is (.keyword .assign)

def LetHead.tokens (head : LetHead) : List Token :=
  head.word.1 :: (head.target.tokens ++ [head.assign.1])

/-- A statement. -/
inductive Stmt where
  | expr (e : Expr)
  | declaration (head : LetHead) (e : Expr)

namespace Stmt

def tokens : Stmt → List Token
  | expr e => e.tokens
  | declaration head e => head.tokens ++ e.tokens

/-- The tree of a statement: a declaration is about its assignment. -/
def tree : Stmt → Tree
  | expr e => e.tree
  | declaration head e =>
    .branch head.word.1 [.branch head.assign.1 [head.target.tree, e.tree]]

end Stmt

/-- Statements with semicolons behind them, and maybe one without. -/
structure Program where
  closed : List (Stmt × Token.Is (.keyword .semicolon))
  last : Option Stmt

namespace Program

/-- The statements of a program in order. -/
def statements (program : Program) : List Stmt :=
  program.closed.map Prod.fst ++ program.last.toList

def tokens (program : Program) : List Token :=
  program.closed.flatMap (fun (s, semicolon) => s.tokens ++ [semicolon.1]) ++
    program.last.elim [] Stmt.tokens

/-- One tree for each statement. -/
def trees (program : Program) : List Tree :=
  program.statements.map Stmt.tree

end Program

end ExprYard
