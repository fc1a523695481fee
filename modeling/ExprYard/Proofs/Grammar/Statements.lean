import ExprYard.Proofs.Grammar.Draft

/-!
# Statements and what there is of them

A statement is read above the trees of the statements before it, and a declaration also above the
marker of its first word. Its end leaves one more tree (`Stmt.takes`). `Draft` is a program that has
been read up to some token: the statements that have been ended, and what there is of the current
one.
-/

namespace ExprYard

open ExprYard.Parser

/-! ## Statements -/

/-- The parser above which a statement is read, with the first word of a declaration if it is
one. -/
def base (word : Option (Token.Is (.keyword .letWord))) (trees : List Tree) : Parser :=
  word.elim (between trees) fun w => (between trees).await (.letWord w.1)

theorem ground_base (word : Option (Token.Is (.keyword .letWord))) (trees : List Tree) :
    (base word trees).Ground := by
  cases word with
  | none => exact ground_between trees
  | some w => exact ground_letWord w.1 trees

namespace Target

/-- The last operand of what is declared. -/
def last (target : Target) : Operand :=
  target.type.elim ⟨[], .leaf target.name.1⟩ fun (_, t) => ⟨[], t.tree⟩

theorem tree_last (target : Target) : target.last.tree = target.operands.last := by
  obtain ⟨name, type⟩ := target
  cases type <;> rfl

theorem takes {q : Parser} (hq : q.Ground) (target : Target) :
    Takes target.tokens q (q.row target.operands target.last) := by
  obtain ⟨name, type⟩ := target
  have hname : q.push name.1 = (q.row (.single (.leaf name.1)) ⟨[], .leaf name.1⟩, none) :=
    push_operand (Kind.IsValue.isOperand (.inr name.2)) q
  cases type with
  | none => exact takes_single hname
  | some typed =>
    obtain ⟨colon, t⟩ := typed
    have hcolon := push_link_row hq (.single (.leaf name.1)) (o := ⟨[], .leaf name.1⟩) rfl
      (colonLink colon)
    have ht := t.takes q hq ((Infix.single (.leaf name.1)).opened (colonLink colon))
    refine .cons hname (.cons hcolon ?_)
    show Takes t.tokens _ ((q.stacked ((Infix.single (.leaf name.1)).join (colonLink colon)
      (.single t.tree)).stack).shifted ⟨[], t.tree⟩)
    rw [Infix.stack_join_single]
    exact ht

end Target

/-- The first word of a declaration. -/
def headWord (head : Option LetHead) : Option (Token.Is (.keyword .letWord)) :=
  head.map LetHead.word

/-- What has been read of the row of a statement before its expression. -/
def headLead (head : Option LetHead) : Lead :=
  head.map fun h => (h.target.operands, assignLink h.assign)

/-- The tokens of a statement before its expression. -/
def headTokens (head : Option LetHead) : List Token :=
  head.elim [] LetHead.tokens

theorem takes_head (head : Option LetHead) (trees : List Tree) :
    Takes (headTokens head) (between trees)
      ((base (headWord head) trees).stacked (headLead head).stack) := by
  cases head with
  | none => rfl
  | some h =>
    have hground := ground_letWord h.word.1 trees
    have htarget := h.target.takes hground
    have hassign := push_link_row hground h.target.operands h.target.tree_last
      (assignLink h.assign)
    exact .cons (push_letWord h.word.2 _) (Takes.append htarget (takes_single hassign))

/-- The statement with a head, if there is one, and an expression. -/
def Stmt.of (head : Option LetHead) (e : Expr) : Stmt :=
  head.elim (.expr e) fun h => .declaration h e

theorem Stmt.tokens_of (head : Option LetHead) (e : Expr) :
    (Stmt.of head e).tokens = headTokens head ++ e.tokens := by
  cases head <;> rfl

theorem Stmt.exists_of (s : Stmt) : ∃ head e, s = Stmt.of head e := by
  cases s with
  | expr e => exact ⟨none, e, rfl⟩
  | declaration h e => exact ⟨some h, e, rfl⟩

/-- What is read above its base when a statement has been read. -/
theorem Stmt.drain_row (head : Option LetHead) (e : Expr) (trees : List Tree) :
    ((base (headWord head) trees).row ((headLead head).row e.operands) e.last).drain
      = (between ((Stmt.of head e).tree :: trees), none) := by
  unfold Parser.row
  cases head with
  | none =>
    refine (drain_expression trees _ _).trans ?_
    rw [e.tree_last (headLead none), Infix.collapse_stack]
    rfl
  | some h =>
    refine (drain_declaration h.word.1 trees _ _).trans ?_
    rw [e.tree_last (headLead (some h)), Infix.collapse_stack]
    show (between (.branch h.word.1 [(h.target.operands.join (assignLink h.assign)
      e.operands).tree] :: trees), none) = _
    rw [tree_declaration]
    rfl

/-- A parser takes a statement, and the end of it leaves its tree. -/
theorem Stmt.takes (s : Stmt) (h : Uncomma s.tokens) (trees : List Tree) :
    ∃ p, Takes s.tokens (between trees) p ∧ p.drain = (between (s.tree :: trees), none) := by
  obtain ⟨head, e, rfl⟩ := s.exists_of
  rw [Stmt.tokens_of] at h
  have htakes := Takes.append (takes_head head trees)
    (e.takes (uncomma_append.mp h).2 _ (ground_base (headWord head) trees) (headLead head))
  rw [← Stmt.tokens_of] at htakes
  exact ⟨_, htakes, Stmt.drain_row head e trees⟩

/-- Statements with semicolons behind them. -/
abbrev Closed := List (Stmt × Token.Is (.keyword .semicolon))

namespace Closed

def tokens (closed : Closed) : List Token :=
  closed.flatMap fun (s, semicolon) => s.tokens ++ [semicolon.1]

/-- The trees of the statements, the latest first. -/
def trees (closed : Closed) : List Tree :=
  (closed.map fun x => x.1.tree).reverse

theorem takes (closed : Closed) (h : Uncomma closed.tokens) (before : List Tree) :
    Takes closed.tokens (between before) (between (closed.trees ++ before)) := by
  induction closed generalizing before with
  | nil => rfl
  | cons x closed ih =>
    obtain ⟨s, semicolon⟩ := x
    obtain ⟨hs, hrest⟩ := uncomma_append.mp h
    obtain ⟨p, hp, hd⟩ := s.takes (uncomma_append.mp hs).1 before
    have hsemicolon := (push_semicolon semicolon.2 p).trans hd
    have hall := Takes.append (Takes.append hp (takes_single hsemicolon))
      (ih hrest (s.tree :: before))
    have htrees : trees ((s, semicolon) :: closed) ++ before
        = trees closed ++ s.tree :: before := by
      simp [trees]
    rw [htrees]
    exact hall

end Closed

/-! ## What there is of a statement -/

/-- A statement up to some token of it. -/
inductive Current where
  /-- A place in its expression, inside of some groups, the innermost of which comes first. -/
  | expression (head : Option LetHead) (frames : List Frame) (place : Place)
  /-- The first word of a declaration. -/
  | word (word : Token.Is (.keyword .letWord))
  /-- What is declared. -/
  | target (word : Token.Is (.keyword .letWord)) (target : Target)
  /-- A place in the type of what is declared, inside of some tuples, the innermost of which comes
  first. -/
  | typing (word : Token.Is (.keyword .letWord)) (name : Token.Is .identifier)
      (colon : Token.Is (.keyword .typeSeparator)) (frames : List TypeFrame) (place : TypePlace)

namespace Current

def tokens : Current → List Token
  | expression head fs place => headTokens head ++ (nestTokens Frame.tokens fs ++ place.tokens)
  | word w => [w.1]
  | target w t => w.1 :: t.tokens
  | typing w name colon fs place =>
    w.1 :: name.1 :: colon.1 :: (nestTokens TypeFrame.tokens fs ++ place.tokens)

/-- The row of a declaration before the type of what is declared. -/
def typeLead (name : Token.Is .identifier) (colon : Token.Is (.keyword .typeSeparator)) : Lead :=
  some (.single (.leaf name.1), colonLink colon)

/-- The parser above the trees of the statements before. -/
def parser (trees : List Tree) : Current → Parser
  | expression head fs place =>
    place.parser (nestLead (headLead head) fs)
      ((base (headWord head) trees).within (nestScopes Frame.scope (headLead head) fs))
  | word w => base (some w) trees
  | target w t => (base (some w) trees).row t.operands t.last
  | typing w name colon fs place =>
    place.parser (nestLead (typeLead name colon) fs)
      ((base (some w) trees).within (nestScopes TypeFrame.scope (typeLead name colon) fs))

theorem uncomma_of_nest {fs : List Frame} (h : Uncomma (nestTokens Frame.tokens fs)) :
    ∀ f ∈ fs, Uncomma f.tokens := by
  induction fs with
  | nil =>
    intro f hf
    cases hf
  | cons g fs ih =>
    obtain ⟨hfs, hg⟩ := uncomma_append.mp h
    intro f hf
    rcases List.mem_cons.mp hf with rfl | hf
    · exact hg
    · exact ih hfs f hf

theorem takes (c : Current) (h : Uncomma c.tokens) (trees : List Tree) :
    Takes c.tokens (between trees) (c.parser trees) := by
  cases c with
  | expression head fs place =>
    obtain ⟨-, h⟩ := uncomma_append.mp h
    obtain ⟨hfs, hplace⟩ := uncomma_append.mp h
    have hground := ground_base (headWord head) trees
    have hnest := takes_nest hground (headLead head) fs
      fun f hf q hq lead => f.takes hq lead (uncomma_of_nest hfs f hf)
    exact Takes.append (takes_head head trees)
      (Takes.append hnest (place.takes (ground_within hground _) _ hplace))
  | word w => exact takes_single (push_letWord w.2 _)
  | target w t => exact .cons (push_letWord w.2 _) (t.takes (ground_base (some w) trees))
  | typing w name colon fs place =>
    have hground := ground_base (some w) trees
    have hname : (base (some w) trees).push name.1
        = ((base (some w) trees).row (.single (.leaf name.1)) ⟨[], .leaf name.1⟩, none) :=
      push_operand (Kind.IsValue.isOperand (.inr name.2)) _
    have hcolon := push_link_row hground (.single (.leaf name.1)) (o := ⟨[], .leaf name.1⟩) rfl
      (colonLink colon)
    have hnest := takes_nest hground (typeLead name colon) fs
      fun f hf q hq lead => f.takes hq lead
    exact .cons (push_letWord w.2 _) (.cons hname (.cons hcolon
      (Takes.append hnest (place.takes (ground_within hground _) _))))

end Current

/-- A program up to some token of it. -/
structure Draft where
  closed : Closed
  current : Current

namespace Draft

def tokens (d : Draft) : List Token :=
  d.closed.tokens ++ d.current.tokens

def parser (d : Draft) : Parser :=
  d.current.parser d.closed.trees

/-- A parser takes what there is of a program and ends where the draft says. -/
theorem takes (d : Draft) (h : Uncomma d.tokens) : Takes d.tokens Parser.empty d.parser := by
  obtain ⟨hclosed, hcurrent⟩ := uncomma_append.mp h
  have hc := d.closed.takes hclosed []
  rw [List.append_nil] at hc
  exact Takes.append hc (d.current.takes hcurrent d.closed.trees)

end Draft

end ExprYard
