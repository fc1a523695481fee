import ExprYard.Proofs.Grammar.Reading

/-!
# Derivations that are not finished

A source that has been read up to some token is the beginning of a program, and a `Draft` is what is
known of its derivation by then: the statements that have been ended, and of the current one the
groups that are open, each with the list around it up to that group, and the place that has been
reached in the innermost list.

A draft has tokens like a derivation, and a parser that is given these ends where the draft says
(`Draft.takes`). What can happen next is a matter of the place alone.
-/

namespace ExprYard

open ExprYard.Parser

/-! ## Places in a list -/

/-- A place in a list where an operand is awaited. -/
inductive Gap where
  /-- No operand has been read. -/
  | start
  | comma (l : Exprs) (comma : Token.Is (.keyword .comma))
  | operator (l : Exprs) (op : BinaryToken)
  | bang (g : Gap) (b : Token.Is (.operator .not))

/-- A list whose last expression goes on with an operator and an operand. -/
def Exprs.extend (op : BinaryToken) (u : Unary) : Exprs → Exprs
  | .one e => .one (.binary e op u)
  | .more l comma e => .more l comma (.binary e op u)

theorem Exprs.tokens_extend (l : Exprs) (op : BinaryToken) (u : Unary) :
    (l.extend op u).tokens = l.tokens ++ op.token :: u.tokens := by
  cases l with
  | one e => rfl
  | more l comma e => simp [extend, Exprs.tokens, Expr.tokens]

/-- Whether a list is a single expression. -/
def Exprs.IsOne : Exprs → Prop
  | .one _ => True
  | .more .. => False

namespace Gap

def tokens : Gap → List Token
  | start => []
  | comma l c => l.tokens ++ [c.1]
  | operator l op => l.tokens ++ [op.token]
  | bang g b => g.tokens ++ [b.1]

/-- The list once the operand is there. -/
def fill : Gap → Unary → Exprs
  | start, u => .one (.unary u)
  | comma l c, u => .more l c (.unary u)
  | operator l op, u => l.extend op u
  | bang g b, u => g.fill (.bang b u)

/-- The operators that wait for the operand. -/
def stack (lead : Lead) : Gap → Stack
  | start => lead.stack
  | comma l c => (lead.row l.operands).opened (commaLink c)
  | operator l op => (lead.row l.operands).opened op.link
  | bang g _ => g.stack lead

/-- The prefixes that wait for the operand, the innermost first. -/
def bangs : Gap → List Token
  | bang g b => b.1 :: g.bangs
  | _ => []

/-- Whether the place is in a single expression, with no comma before it. -/
def IsPlain : Gap → Prop
  | start => True
  | comma .. => False
  | operator l _ => l.IsOne
  | bang g _ => g.IsPlain

theorem tokens_fill (g : Gap) (u : Unary) : (g.fill u).tokens = g.tokens ++ u.tokens := by
  induction g generalizing u with
  | start => rfl
  | comma l c => simp [fill, tokens, Exprs.tokens, Expr.tokens]
  | operator l op => simp [fill, tokens, Exprs.tokens_extend]
  | bang g b ih => simp [fill, tokens, ih, Unary.tokens]

theorem isOne_fill {g : Gap} (h : g.IsPlain) (u : Unary) : (g.fill u).IsOne := by
  induction g generalizing u with
  | start => trivial
  | comma l c => exact h.elim
  | operator l op =>
    cases l with
    | one e => trivial
    | more l c e => exact h.elim
  | bang g b ih => exact ih h (.bang b u)

/-- Something waits for the operand, unless it is the first of the list. -/
theorem waits_of_ne_start {g : Gap} (h : g ≠ start) (lead : Lead) :
    g.bangs ≠ [] ∨ g.stack lead ≠ [] := by
  cases g with
  | start => exact (h rfl).elim
  | comma l c => exact .inr (List.cons_ne_nil _ _)
  | operator l op => exact .inr (List.cons_ne_nil _ _)
  | bang g b => exact .inl (List.cons_ne_nil _ _)

theorem takes {q : Parser} (hq : q.Ground) (lead : Lead) :
    ∀ g : Gap, Uncomma g.tokens →
      Takes g.tokens (q.stacked lead.stack) (q.waiting (g.stack lead) g.bangs)
  | start, _ => rfl
  | comma l c, h =>
    Takes.append (l.takes (uncomma_append.mp h).1 q hq lead)
      (takes_single (push_link_row hq _ (l.tree_last lead) (commaLink c)))
  | operator l op, h =>
    Takes.append (l.takes (uncomma_append.mp h).1 q hq lead)
      (takes_single (push_link_row hq _ (l.tree_last lead) op.link))
  | bang g b, h =>
    Takes.append (takes hq lead g (uncomma_append.mp h).1) (takes_single (push_bang b.2 _))

end Gap

/-- A place in a list: an operand is awaited, or one has been read. -/
inductive Place where
  | gap (g : Gap)
  | list (l : Exprs)

namespace Place

def tokens : Place → List Token
  | gap g => g.tokens
  | list l => l.tokens

/-- The parser above `q` at a place of a list, of whose row `lead` has been read before. -/
def parser (lead : Lead) (q : Parser) : Place → Parser
  | gap g => q.waiting (g.stack lead) g.bangs
  | list l => q.row (lead.row l.operands) l.last

theorem takes {q : Parser} (hq : q.Ground) (lead : Lead) (place : Place)
    (h : Uncomma place.tokens) :
    Takes place.tokens (q.stacked lead.stack) (place.parser lead q) := by
  cases place with
  | gap g => exact g.takes hq lead h
  | list l => exact l.takes h q hq lead

end Place

/-! ## Groups within groups -/

section Nests

variable {α : Type}

/-- The tokens of nested groups, the innermost of which comes first. -/
def nestTokens (tokens : α → List Token) : List α → List Token
  | [] => []
  | f :: fs => nestTokens tokens fs ++ tokens f

/-- What has been read of the innermost row before its list: only the outermost row may begin with
something else. -/
def nestLead (lead : Lead) : List α → Lead
  | [] => lead
  | _ :: _ => none

/-- Nested groups as a parser has them. -/
def nestScopes (scope : Lead → α → Scope) (lead : Lead) : List α → List Scope
  | [] => []
  | f :: fs => scope (nestLead lead fs) f :: nestScopes scope lead fs

/-- A parser that takes each group takes them all. -/
theorem takes_nest {tokens : α → List Token} {scope : Lead → α → Scope} {q : Parser}
    (hq : q.Ground) (lead : Lead) :
    ∀ fs : List α, (∀ f ∈ fs, ∀ (q : Parser), q.Ground → ∀ lead : Lead,
        Takes (tokens f) (q.stacked lead.stack) (q.enter (scope lead f))) →
      Takes (nestTokens tokens fs) (q.stacked lead.stack)
        ((q.within (nestScopes scope lead fs)).stacked (nestLead lead fs).stack)
  | [], _ => rfl
  | f :: fs, h =>
    Takes.append (takes_nest hq lead fs fun g hg => h g (List.mem_cons_of_mem f hg))
      (h f List.mem_cons_self _ (ground_within hq _) (nestLead lead fs))

end Nests

/-! ## Open groups -/

/-- A group that is open, or a call, and the place that it takes in the list around it. -/
structure Frame where
  gap : Gap
  call : Option (Token.Is .function)
  opening : Token.Is .openParen

namespace Frame

/-- The call of a frame and its parenthesis. -/
def bracket (f : Frame) : List Token :=
  f.call.elim [f.opening.1] fun name => [name.1, f.opening.1]

def tokens (f : Frame) : List Token :=
  f.gap.tokens ++ f.bracket

/-- The operand that the group is once it is closed. -/
def close (f : Frame) (c : Contents) (closing : Token.Is .closeParen) : Unary :=
  f.call.elim (.group f.opening c closing) fun name => .call name f.opening c closing

/-- The frame as a parser has it. -/
def scope (lead : Lead) (f : Frame) : Scope :=
  ⟨f.gap.stack lead, f.gap.bangs, f.call.map (·.1), f.opening.1⟩

theorem tokens_close (f : Frame) (c : Contents) (closing : Token.Is .closeParen) :
    (f.close c closing).tokens = f.bracket ++ (c.tokens ++ [closing.1]) := by
  obtain ⟨gap, call, opening⟩ := f
  cases call <;> rfl

theorem takes {q : Parser} (hq : q.Ground) (lead : Lead) (f : Frame) (h : Uncomma f.tokens) :
    Takes f.tokens (q.stacked lead.stack) (q.enter (f.scope lead)) := by
  refine Takes.append (f.gap.takes hq lead (uncomma_append.mp h).1) ?_
  obtain ⟨gap, call, opening⟩ := f
  cases call with
  | none => exact takes_single (push_opening opening.2 _)
  | some name => exact .cons (push_function name.2 _) (takes_single (push_opening opening.2 _))

end Frame

/-! ## Places in a type -/

/-- A place among types where a type is awaited. -/
inductive TypeGap where
  | start
  | comma (l : Tys) (comma : Token.Is (.keyword .comma))

namespace TypeGap

def tokens : TypeGap → List Token
  | start => []
  | comma l c => l.tokens ++ [c.1]

/-- The types once the awaited one is there. -/
def fill : TypeGap → Ty → Tys
  | start, t => .one t
  | comma l c, t => .more l c t

/-- The operators that wait for the type. -/
def stack (lead : Lead) : TypeGap → Stack
  | start => lead.stack
  | comma l c => (lead.row l.operands).opened (commaLink c)

theorem tokens_fill (g : TypeGap) (t : Ty) : (g.fill t).tokens = g.tokens ++ t.tokens := by
  cases g with
  | start => rfl
  | comma l c => simp [fill, tokens, Tys.tokens]

theorem takes {q : Parser} (hq : q.Ground) (lead : Lead) (g : TypeGap) :
    Takes g.tokens (q.stacked lead.stack) (q.stacked (g.stack lead)) := by
  cases g with
  | start => rfl
  | comma l c =>
    exact Takes.append (l.takes q hq lead)
      (takes_single (push_link_row hq _ (l.tree_last lead) (commaLink c)))

end TypeGap

/-- A tuple type whose parenthesis is open, and the place that it takes among the types around
it. -/
structure TypeFrame where
  gap : TypeGap
  word : Token.Is (.type .tuple)
  opening : Token.Is .openParen

namespace TypeFrame

def tokens (f : TypeFrame) : List Token :=
  f.gap.tokens ++ [f.word.1, f.opening.1]

def scope (lead : Lead) (f : TypeFrame) : Scope :=
  ⟨f.gap.stack lead, [], some f.word.1, f.opening.1⟩

theorem takes {q : Parser} (hq : q.Ground) (lead : Lead) (f : TypeFrame) :
    Takes f.tokens (q.stacked lead.stack) (q.enter (f.scope lead)) :=
  Takes.append (f.gap.takes hq lead)
    (.cons (push_tuple f.word.2 _) (takes_single (push_opening f.opening.2 _)))

end TypeFrame

/-- A place in a type: a type is awaited, the word `tuple` has been read, or a type within a tuple
has. -/
inductive TypePlace where
  | gap (g : TypeGap)
  | word (g : TypeGap) (word : Token.Is (.type .tuple))
  | list (l : Tys)

namespace TypePlace

def tokens : TypePlace → List Token
  | gap g => g.tokens
  | word g w => g.tokens ++ [w.1]
  | list l => l.tokens

def parser (lead : Lead) (q : Parser) : TypePlace → Parser
  | gap g => q.stacked (g.stack lead)
  | word g w => (q.stacked (g.stack lead)).await (.call w.1)
  | list l => q.row (lead.row l.operands) l.last

theorem takes {q : Parser} (hq : q.Ground) (lead : Lead) (place : TypePlace) :
    Takes place.tokens (q.stacked lead.stack) (place.parser lead q) := by
  cases place with
  | gap g => exact g.takes hq lead
  | word g w => exact Takes.append (g.takes hq lead) (takes_single (push_tuple w.2 _))
  | list l => exact l.takes q hq lead

end TypePlace

end ExprYard
