import ExprYard.Proofs.Grammar.Reading

/-!
# Precedence and associativity

`Splits` says what a row of operands means, as one would explain it: it is split at the operator
that binds most loosely, at the last such operator if they associate to the left and at the first if
they associate to the right, and what is on the two sides is split in the same way. Each operand has
its own prefixes and none of those around it.

Every row is split in one way only (`Splits.iff_tree`), and that is the tree that a parser finds for
its tokens (`infix_splits`). The statement is about tokens of any kinds that take part in a row,
whether or not a lexer would write such a row.
-/

namespace ExprYard

/-! ## Operators that bind equally tightly -/

namespace Link

/-- Of the tokens that join two operands only the assignment sign associates to the right, and only
it binds as loosely as it does. -/
theorem associativity_eq_right_iff (b : Link) :
    b.binding.associativity = .right ↔ b.binding.precedence = 0 := by
  obtain ⟨t, binding, bound, arity⟩ := b
  dsimp only
  cases hk : t.kind with
  | operator op =>
    rw [hk] at bound
    cases bound
    cases op <;> first | decide | cases arity
  | keyword word =>
    rw [hk] at bound
    cases word <;> cases bound <;> decide
  | _ =>
    rw [hk] at bound
    cases bound

theorem associativity_eq {b c : Link} (h : b.binding.precedence = c.binding.precedence) :
    b.binding.associativity = c.binding.associativity := by
  have hb := associativity_eq_right_iff b
  have hc := associativity_eq_right_iff c
  rw [h] at hb
  cases hba : b.binding.associativity <;> cases hca : c.binding.associativity <;> simp_all

end Link

/-! ## Rows of operands with prefixes -/

/-- An operand of a single token and the prefixes before it, the outermost first. -/
structure Item where
  bangs : List (Token.Is (.operator .not))
  core : Token.Of (·.isOperand = true)

namespace Item

/-- The tokens of an operand. -/
def tokens (x : Item) : List Token :=
  x.bangs.map Subtype.val ++ [x.core.1]

/-- The tree of an operand: each prefix is applied to what comes behind it. -/
def tree (x : Item) : Tree :=
  x.bangs.foldr (fun b t => .branch b.1 [t]) (.leaf x.core.1)

/-- An operand as a parser has it before its prefixes are folded. -/
def operand (x : Item) : Operand :=
  ⟨(x.bangs.map Subtype.val).reverse, .leaf x.core.1⟩

theorem tree_operand (x : Item) : x.operand.tree = x.tree := by
  unfold Operand.tree operand tree
  rw [List.foldl_reverse, List.foldr_map]

end Item

namespace Infix

variable {α β : Type}

/-- A row is a single operand, or a row with one more operand and an operator before it. -/
@[elab_as_elim]
theorem induct {motive : Infix α → Prop} (single : ∀ x, motive (single x))
    (join : ∀ x b j, motive j → motive ((Infix.single x).join b j)) (i : Infix α) : motive i := by
  obtain ⟨x, rest⟩ := i
  induction rest generalizing x with
  | nil => exact single x
  | cons z rest ih => exact join x z.1 ⟨z.2, rest⟩ (ih z.2)

/-- A row with each operand turned into another. -/
def map (f : α → β) (i : Infix α) : Infix β :=
  ⟨f i.first, i.rest.map fun x => (x.1, f x.2)⟩

@[simp] theorem map_single (f : α → β) (a : α) : (single a).map f = single (f a) := rfl

@[simp] theorem map_join (f : α → β) (i : Infix α) (b : Link) (j : Infix α) :
    (i.join b j).map f = (i.map f).join b (j.map f) := by
  simp [map, join]

@[simp] theorem links_map (f : α → β) (i : Infix α) : (i.map f).links = i.links := by
  simp [links, map]

theorem last_map (f : α → β) (i : Infix α) : (i.map f).last = f i.last := by
  induction i using induct with
  | single x => rfl
  | join x b j ih => rw [map_join, last_join, last_join, ih]

/-- The tokens of a row. -/
def tokens (i : Infix Item) : List Token :=
  i.first.tokens ++ i.rest.flatMap fun x => x.1.token :: x.2.tokens

@[simp] theorem tokens_single (x : Item) : (single x).tokens = x.tokens :=
  List.append_nil _

@[simp] theorem tokens_join (i : Infix Item) (b : Link) (j : Infix Item) :
    (i.join b j).tokens = i.tokens ++ b.token :: j.tokens := by
  simp [tokens, join]

end Infix

/-! ## Splitting a row -/

/-- The operator `b` is the place to split a row, with the given operators before and after it. -/
structure Loosest (b : Link) (before after : List Link) : Prop where
  /-- No other operator binds more loosely. -/
  least : ∀ c ∈ before ++ after, b.binding.precedence ≤ c.binding.precedence
  /-- Among operators that associate to the left it is the last that binds so loosely. -/
  last : b.binding.associativity = .left →
    ∀ c ∈ after, c.binding.precedence ≠ b.binding.precedence
  /-- Among operators that associate to the right it is the first. -/
  first : b.binding.associativity = .right →
    ∀ c ∈ before, c.binding.precedence ≠ b.binding.precedence

/-- The place to split is where all before yield to the operator, and it yields to none behind. -/
theorem loosest_iff {b : Link} {before after : List Link} :
    Loosest b before after ↔
      (∀ c ∈ before, c.yieldsTo b = true) ∧ ∀ d ∈ after, ¬ b.yieldsTo d = true := by
  constructor
  · intro h
    refine ⟨fun c hc => ?_, fun d hd hyields => ?_⟩
    · have hle := h.least c (List.mem_append_left after hc)
      rw [Link.yieldsTo_iff]
      rcases Nat.lt_or_eq_of_le hle with hlt | heq
      · exact .inl hlt
      · cases ha : b.binding.associativity with
        | left => exact .inr ⟨heq, rfl⟩
        | right => exact (h.first ha c hc heq.symm).elim
    · have hle := h.least d (List.mem_append_right before hd)
      rcases Link.yieldsTo_iff.mp hyields with hlt | ⟨heq, ha⟩
      · exact Nat.not_lt_of_le hle hlt
      · exact h.last ((Link.associativity_eq heq).symm.trans ha) d hd heq
  · rintro ⟨hbefore, hafter⟩
    refine ⟨fun c hc => ?_, fun ha d hd heq => ?_, fun ha c hc heq => ?_⟩
    · rcases List.mem_append.mp hc with hc | hc
      · rcases Link.yieldsTo_iff.mp (hbefore c hc) with hlt | ⟨heq, -⟩
        · exact Nat.le_of_lt hlt
        · exact Nat.le_of_eq heq
      · exact Nat.le_of_not_lt fun hlt => hafter c hc (Link.yieldsTo_iff.mpr (.inl hlt))
    · have hd' := (Link.associativity_eq heq).trans ha
      exact hafter d hd (Link.yieldsTo_iff.mpr (.inr ⟨heq, hd'⟩))
    · rcases Link.yieldsTo_iff.mp (hbefore c hc) with hlt | ⟨-, hb⟩
      · exact Nat.ne_of_gt hlt heq
      · rw [ha] at hb
        cases hb

/-- What a row of operands stands for: an operand for itself, and more than one for the operator at
the place to split, over what is before and behind it. -/
inductive Splits : Infix Item → Tree → Prop where
  | single (x : Item) : Splits (.single x) x.tree
  | join {i j : Infix Item} {b : Link} {l r : Tree} (place : Loosest b i.links j.links)
      (left : Splits i l) (right : Splits j r) : Splits (i.join b j) (.branch b.token [l, r])

namespace Splits

theorem eq_tree {i : Infix Item} {t : Tree} (h : Splits i t) : t = (i.map Item.tree).tree := by
  induction h with
  | single x => rw [Infix.map_single, Infix.tree_single]
  | join place left right ihl ihr =>
    obtain ⟨hbefore, hafter⟩ := loosest_iff.mp place
    rw [Infix.map_join, Infix.tree_join, ihl, ihr]
    · rw [Infix.links_map]
      exact hbefore
    · rw [Infix.links_map]
      exact hafter

/-- There is always a place to split. -/
theorem exists_tree (i : Infix Item) : ∃ t, Splits i t := by
  obtain ⟨x, rest⟩ := i
  induction hn : rest.length using Nat.strongRecOn generalizing x rest with
  | ind n ih =>
    cases hroot : Infix.root rest with
    | none =>
      rw [Infix.eq_nil_of_root hroot]
      exact ⟨x.tree, .single x⟩
    | some split =>
      obtain ⟨pre, ⟨b, y⟩, post⟩ := split
      obtain ⟨rfl, hpre, hpost⟩ := Infix.of_root hroot
      rw [List.length_append, List.length_cons] at hn
      obtain ⟨l, hl⟩ := ih pre.length (by omega) x pre rfl
      obtain ⟨r, hr⟩ := ih post.length (by omega) y post rfl
      refine ⟨.branch b.token [l, r], .join (i := ⟨x, pre⟩) (j := ⟨y, post⟩) ?_ hl hr⟩
      rw [loosest_iff]
      exact ⟨List.forall_mem_map.mpr hpre, List.forall_mem_map.mpr hpost⟩

/-- A row is split in one way. -/
theorem iff_tree {i : Infix Item} {t : Tree} : Splits i t ↔ t = (i.map Item.tree).tree := by
  constructor
  · exact eq_tree
  · rintro rfl
    obtain ⟨u, hu⟩ := exists_tree i
    rw [← hu.eq_tree]
    exact hu

end Splits

/-! ## Reading a row -/

/-- A parser takes an operand, whose prefixes wait. -/
theorem Item.takes (x : Item) (p : Parser) : Parser.Takes x.tokens p (p.shifted x.operand) := by
  obtain ⟨bangs, core⟩ := x
  induction bangs generalizing p with
  | nil => exact Parser.takes_single (Parser.push_operand core.2 p)
  | cons b bangs ih =>
    refine .cons (Parser.push_bang b.2 p) ?_
    have hwrap : (Item.mk (b :: bangs) core).operand = (Item.mk bangs core).operand.wrap [b.1] := by
      simp [Item.operand, Operand.wrap]
    rw [hwrap, Parser.shifted_wrap]
    exact ih (p.prefixed [b.1])

/-- A parser takes a row behind whatever of a longer one has been read. -/
theorem Infix.takes (i : Infix Item) {q : Parser} (hq : q.Ground) (lead : Lead) :
    Parser.Takes i.tokens (q.stacked lead.stack)
      (q.row (lead.row (i.map Item.tree)) i.last.operand) := by
  induction i using induct generalizing lead with
  | single x =>
    have hitem := x.takes (q.stacked lead.stack)
    rw [tokens_single, map_single, last_single, Parser.row, lead.stack_row_single]
    exact hitem
  | join x b j ih =>
    have hitem := x.takes (q.stacked lead.stack)
    have hrest := ih (some (lead.row (single x.tree), b))
    have hlast : x.operand.tree = (lead.row (single x.tree)).last := by
      rw [x.tree_operand, lead.last_row_single]
    have hlink := Parser.push_link_row hq (lead.row (single x.tree)) hlast b
    rw [Parser.row, lead.stack_row_single] at hlink
    rw [tokens_join, tokens_single, map_join, map_single, last_join, lead.row_join]
    exact hitem.append (.cons hlink hrest)

/-- Whatever the operands of a row and the operators between them, a parser takes its tokens and
comes to one tree, which is the only one that the row can be split into. -/
theorem infix_splits (i : Infix Item) :
    ∃ (p : Parser) (t : Tree), Parser.pushAll i.tokens .empty = (p, i.tokens.length, none) ∧
      p.finish.2 = .ok [t] ∧ ∀ u : Tree, Splits i u ↔ u = t := by
  have htakes := i.takes (Parser.ground_between []) none
  have hlast : i.last.operand.tree = (i.map Item.tree).last := by
    rw [i.last.tree_operand, Infix.last_map]
  have hdrain : ((Parser.between []).row (i.map Item.tree) i.last.operand).drain
      = (Parser.between [(i.map Item.tree).tree], none) := by
    rw [Parser.row, Parser.drain_expression, hlast, Infix.collapse_stack]
  refine ⟨_, _, Parser.takes_iff_pushAll.mp htakes, ?_, fun u => Splits.iff_tree⟩
  unfold Parser.finish
  rw [show Lead.row none (i.map Item.tree) = i.map Item.tree from rfl, hdrain]
  rfl

end ExprYard
