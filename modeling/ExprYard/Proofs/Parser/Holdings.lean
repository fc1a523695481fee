import ExprYard.Proofs.Grammar.Reading
import ExprYard.Proofs.Parser.Requests

/-!
# What a parser holds

A parser that has taken tokens without a failure holds each of them once, in its trees or as a
marker that waits, apart from those that leave nothing behind: a semicolon, a closing parenthesis and
the opening one that it belongs to, the end of the tokens, and what was reported. All that it adds is
the empty tuple for a group without an operand.

Which groups are open, and which were left without an operand, can be told from the tokens alone
(`Ledger`). The parser tells it from the counts of its markers, and `Accounts` says that the two
agree.
-/

namespace ExprYard

namespace Kind

/-- Whether a tree holds the tokens of a kind. -/
def isNode : Kind → Bool
  | eof | error | invalid | openParen | closeParen => false
  | keyword word => word ≠ .semicolon
  | emptyTuple | identifier | function | string | char | integer | float | operator _ | type _ =>
    true

theorem isNode_of_isOperand {kind : Kind} (h : kind.isOperand = true) : kind.isNode = true := by
  cases kind <;> first | rfl | cases h

theorem isNode_of_binding {kind : Kind} {b : Binding} (h : kind.binding = some b) :
    kind.isNode = true ∧ kind.isOperand = false := by
  cases kind with
  | operator => exact ⟨rfl, rfl⟩
  | keyword word =>
    cases word with
    | semicolon => cases h
    | _ => exact ⟨rfl, rfl⟩
  | _ => cases h

end Kind

namespace Tree

/-- The tokens of a tree, each before those of its children. -/
def tokens (t : Tree) : List Token :=
  t.nodes.map fun n => n.2.1

@[simp] theorem tokens_node (t : Token) (cs : List Tree) (f : Bool) :
    (node t cs f).tokens = t :: cs.flatMap tokens := by
  simp only [tokens, nodes_node, List.map_cons, List.map_flatMap]
  rfl

@[simp] theorem tokens_branch (t : Token) (cs : List Tree) :
    (branch t cs).tokens = t :: cs.flatMap tokens :=
  tokens_node t cs false

@[simp] theorem tokens_leaf (t : Token) : (leaf t).tokens = [t] :=
  tokens_branch t []

/-- Closing a tuple sets flags and moves no token. -/
@[simp] theorem tokens_closeTuple (t : Tree) : t.closeTuple.tokens = t.tokens := by
  induction t using chain_induct with
  | stop t h => rw [closeTuple_of_not_isSeparator h]
  | link t a b ht ih =>
    rw [closeTuple_comma ht, tokens_node, tokens_node, List.flatMap_cons, ih]
    rfl

end Tree

/-! ## The groups of tokens -/

/-- What tokens have left of their groups. -/
structure Ledger where
  /-- The open parentheses, the latest first, each with whether it has had an operand since. An
  operand counts for the innermost of them, and so does a group that has ended. -/
  opened : List (Token × Bool)
  /-- The empty tuples of the groups that had no operand when they ended, the latest first. -/
  units : List Token
deriving DecidableEq

namespace Ledger

/-- The innermost group has had an operand. -/
def fill : List (Token × Bool) → List (Token × Bool)
  | [] => []
  | (t, _) :: groups => (t, true) :: groups

/-- The empty tuple that stands where `closing` does. -/
def unit (closing : Token) : Token :=
  ⟨.emptyTuple, "()", closing.span⟩

/-- The end of the innermost group. -/
def close (closing : Token) (l : Ledger) : Ledger :=
  match l.opened with
  | [] => l
  | (_, filled) :: groups =>
    ⟨fill groups, if filled then l.units else unit closing :: l.units⟩

/-- One token more. -/
def enter (l : Ledger) (t : Token) : Ledger :=
  if t.kind.isOperand then { l with opened := fill l.opened }
  else if t.kind = .openParen then { l with opened := (t, false) :: l.opened }
  else if t.kind = .closeParen then l.close t
  else l

/-- What tokens leave of their groups. -/
def of (ts : List Token) : Ledger :=
  ts.foldl enter ⟨[], []⟩

theorem of_concat (ts : List Token) (t : Token) : of (ts ++ [t]) = (of ts).enter t :=
  List.foldl_append

theorem enter_of_isOperand {l : Ledger} {t : Token} (h : t.kind.isOperand = true) :
    l.enter t = { l with opened := fill l.opened } :=
  if_pos h

theorem enter_of_openParen {l : Ledger} {t : Token} (h : t.kind = .openParen) :
    l.enter t = { l with opened := (t, false) :: l.opened } := by
  unfold enter
  rw [h]
  rfl

theorem enter_of_closeParen {l : Ledger} {t : Token} (h : t.kind = .closeParen) :
    l.enter t = l.close t := by
  unfold enter
  rw [h]
  rfl

theorem enter_of_other {l : Ledger} {t : Token} (h : t.kind.isOperand = false)
    (ho : t.kind ≠ .openParen) (hc : t.kind ≠ .closeParen) : l.enter t = l := by
  unfold enter
  rw [h, if_neg ho, if_neg hc]
  rfl

/-- The empty tuples are of a kind of their own. -/
theorem kind_of_mem_units {ts : List Token} {u : Token} (h : u ∈ (of ts).units) :
    u.kind = .emptyTuple := by
  suffices hall : ∀ l : Ledger, (∀ v ∈ l.units, v.kind = .emptyTuple) →
      ∀ v ∈ (ts.foldl enter l).units, v.kind = .emptyTuple from
    hall ⟨[], []⟩ (fun v hv => nomatch hv) u h
  clear h
  induction ts with
  | nil => exact fun l hl => hl
  | cons t ts ih =>
    intro l hl
    apply ih
    unfold enter close
    split
    · exact hl
    · split
      · exact hl
      · split
        · split
          · exact hl
          · split
            · exact hl
            · exact List.forall_mem_cons.mpr ⟨rfl, hl⟩
        · exact hl

end Ledger

namespace Parser

open Ledger (fill)

/-- The tokens that a parser holds, in its trees and in what waits. -/
def held (p : Parser) : List Token :=
  p.operands.flatMap Tree.tokens ++ p.pending.map Marker.token

/-! ## The groups of a parser -/

/-- The open parentheses among markers, each with whether it has operands of its own: more than
there were when it opened, in all where it is the innermost, and otherwise by the time that the
next one opened. -/
def groups (operands : Nat) : List Marker → List (Token × Bool)
  | [] => []
  | .paren t n :: ms => (t, decide (n < operands)) :: groups n ms
  | _ :: ms => groups operands ms

variable {p q : Parser} {t : Token} {m : Marker} {ms : List Marker} {k : Nat}

theorem groups_cons (h : m.count? = none) (k : Nat) : groups k (m :: ms) = groups k ms := by
  cases m with
  | paren => cases h
  | operator | call | letWord => rfl

/-- With more operands than there were when the innermost group opened, that group has some. -/
theorem groups_of_lt (h : ∀ n ∈ (ms.filterMap Marker.count?).head?, n < k) (j : Nat) :
    groups k ms = fill (groups j ms) := by
  induction ms with
  | nil => rfl
  | cons m ms ih =>
    cases m with
    | paren t n =>
      have hn : n < k := h n rfl
      rw [groups, groups, fill, decide_eq_true hn]
    | operator | call | letWord => exact ih h

theorem Layered.groups_above (h : p.Layered) (hk : p.floor < k) (j : Nat) :
    groups k p.pending = fill (groups j p.pending) := by
  apply groups_of_lt
  intro n hn
  exact Nat.lt_of_le_of_lt (h.le_floor n (List.mem_of_mem_head? hn)) hk

/-! ## The account of a parser -/

/-- The tokens that a parser should hold: those for the trees, the parentheses that are still open,
and the empty tuples of the groups that had no operand. -/
def due (ts : List Token) : List Token :=
  ts.filter (·.kind.isNode) ++ (Ledger.of ts).opened.map Prod.fst ++ (Ledger.of ts).units

/-- A parser that has taken tokens holds what it should. -/
structure Accounts (ts : List Token) (p : Parser) : Prop where
  layered : p.Layered
  holds : p.held.Perm (due ts)
  opened : (Ledger.of ts).opened = groups p.operands.length p.pending

theorem accounts_empty : Accounts [] empty where
  layered := layered_empty
  holds := .nil
  opened := rfl

variable {ts : List Token}

/-- A parser that holds the same in the same groups accounts for the same tokens. -/
theorem Accounts.recast (hp : Accounts ts p) (hl : q.Layered) (hh : q.held.Perm p.held)
    (hg : groups q.operands.length q.pending = groups p.operands.length p.pending) :
    Accounts ts q where
  layered := hl
  holds := hh.trans hp.holds
  opened := hp.opened.trans hg.symm

/-- A fold moves the token of a marker into a tree. -/
theorem Reduces.held (h : Reduces p q) : q.held.Perm p.held := by
  cases h with
  | @fold m ms xs rest pending folded operands demand reach =>
    rw [List.perm_iff_count]
    intro a
    have hxs := ((List.reverse_perm xs).flatMap_right Tree.tokens).count_eq a
    simp only [Parser.held, pending, operands, List.flatMap_cons, List.flatMap_append,
      Tree.tokens_branch, List.map_cons, List.count_append, List.count_cons]
    omega

/-- The operands that a fold takes and the tree that it makes of them are in the same group. -/
theorem Reduces.groups (h : Reduces p q) (hp : p.Layered) :
    groups q.operands.length q.pending = groups p.operands.length p.pending := by
  cases h with
  | @fold m ms xs rest pending folded operands demand reach =>
    have hpos := Marker.demand_pos folded
    have hlong : p.floor < p.operands.length := by
      rw [operands, List.length_append]
      omega
    rw [hp.groups_above hlong 0, ← hp.groups_above (Nat.lt_succ_of_le reach) 0, pending,
      groups_cons (Marker.count?_of_isFolded folded)]
    rfl

theorem Reduces.accounts (h : Reduces p q) (hp : Accounts ts p) : Accounts ts q :=
  hp.recast (h.layered hp.layered) h.held (h.groups hp.layered)

/-! ## One token more -/

theorem map_fst_fill (gs : List (Token × Bool)) : (fill gs).map Prod.fst = gs.map Prod.fst := by
  cases gs <;> rfl

/-- A token that leaves nothing. -/
theorem Accounts.skip (hp : Accounts ts p) (hn : t.kind.isNode = false)
    (ho : t.kind ≠ .openParen) (hc : t.kind ≠ .closeParen) : Accounts (ts ++ [t]) p := by
  have hoperand : t.kind.isOperand = false := by
    cases h : t.kind.isOperand with
    | false => rfl
    | true => rw [← hn, Kind.isNode_of_isOperand h]
  have hledger : Ledger.of (ts ++ [t]) = Ledger.of ts := by
    rw [Ledger.of_concat, Ledger.enter_of_other hoperand ho hc]
  have hdue : due (ts ++ [t]) = due ts := by
    simp [due, hledger, hn]
  exact ⟨hp.layered, hdue ▸ hp.holds, hledger ▸ hp.opened⟩

/-- A token that is held, whatever else becomes of the groups. -/
theorem Accounts.take (hp : Accounts ts p) (hl : q.Layered) (hh : q.held.Perm (t :: p.held))
    (hd : (due (ts ++ [t])).Perm (t :: due ts))
    (hg : (Ledger.of (ts ++ [t])).opened = groups q.operands.length q.pending) :
    Accounts (ts ++ [t]) q where
  layered := hl
  holds := hh.trans ((hp.holds.cons t).trans hd.symm)
  opened := hg

theorem due_of_isNode (hn : t.kind.isNode = true) : (due (ts ++ [t])).Perm (t :: due ts) := by
  have hledger : (Ledger.of (ts ++ [t])).opened.map Prod.fst = (Ledger.of ts).opened.map Prod.fst ∧
      (Ledger.of (ts ++ [t])).units = (Ledger.of ts).units := by
    rw [Ledger.of_concat]
    by_cases hoperand : t.kind.isOperand = true
    · rw [Ledger.enter_of_isOperand hoperand]
      exact ⟨map_fst_fill _, rfl⟩
    · have ho : t.kind ≠ .openParen := fun h => by rw [h] at hn; cases hn
      have hc : t.kind ≠ .closeParen := fun h => by rw [h] at hn; cases hn
      rw [Ledger.enter_of_other (eq_false_of_ne_true hoperand) ho hc]
      exact ⟨rfl, rfl⟩
  rw [List.perm_iff_count]
  intro a
  simp only [due, hledger.1, hledger.2, List.filter_append, List.filter_cons, hn, if_true,
    List.filter_nil, List.count_append, List.count_cons, List.count_nil]
  omega

theorem due_of_openParen (ho : t.kind = .openParen) : (due (ts ++ [t])).Perm (t :: due ts) := by
  have hn : t.kind.isNode = false := by
    rw [ho]
    rfl
  rw [List.perm_iff_count]
  intro a
  simp only [due, Ledger.of_concat, Ledger.enter_of_openParen ho, List.map_cons, List.filter_append,
    List.filter_cons, hn, Bool.false_eq_true, if_false, List.filter_nil, List.append_nil,
    List.count_append, List.count_cons]
  omega

/-- A value is one more operand in its group. -/
theorem Accounts.operand (hp : Accounts ts p) (kind : t.kind.isOperand = true) :
    Accounts (ts ++ [t]) (p.shift (.leaf t)) := by
  have harrives : Arrives t p (p.shift (.leaf t), none) := .operand kind
  refine hp.take (harrives.layered hp.layered) ?_ (due_of_isNode (Kind.isNode_of_isOperand kind)) ?_
  · simp [held, shift]
  · rw [Ledger.of_concat, Ledger.enter_of_isOperand kind]
    show fill (Ledger.of ts).opened = _
    rw [hp.opened]
    exact (hp.layered.groups_above (Nat.lt_succ_of_le hp.layered.floor_le) _).symm

theorem Awaits.held (h : Awaits t p m) : (p.await m).held.Perm (t :: p.held) := by
  simp only [Parser.held, await, List.map_cons, h.token_eq]
  exact List.perm_middle

/-- A marker that is no parenthesis is in the group around it, and is no operand of it. -/
theorem Accounts.wait (hp : Accounts ts p) (h : Awaits t p m) (hm : m.count? = none)
    (hn : t.kind.isNode = true) (hoperand : t.kind.isOperand = false) :
    Accounts (ts ++ [t]) (p.await m) := by
  have ho : t.kind ≠ .openParen := fun ho => by rw [ho] at hn; cases hn
  have hc : t.kind ≠ .closeParen := fun hc => by rw [hc] at hn; cases hn
  refine hp.take (h.layered hp.layered) h.held (due_of_isNode hn) ?_
  rw [Ledger.of_concat, Ledger.enter_of_other hoperand ho hc, hp.opened]
  exact (groups_cons hm _).symm

/-- A token that waits. -/
theorem Accounts.marker (hp : Accounts ts p) (h : Awaits t p m) :
    Accounts (ts ++ [t]) (p.await m) := by
  cases h with
  | paren kind =>
    have hparen : Awaits t p (.paren t p.operands.length) := .paren kind
    refine hp.take (hparen.layered hp.layered) hparen.held (due_of_openParen kind) ?_
    rw [Ledger.of_concat, Ledger.enter_of_openParen kind, hp.opened]
    show _ = (t, decide (p.operands.length < p.operands.length)) :: _
    rw [decide_eq_false (Nat.lt_irrefl _)]
  | call kind =>
    have hcall : t.kind.isNode = true ∧ t.kind.isOperand = false := by
      rcases kind with kind | kind <;> rw [kind] <;> exact ⟨rfl, rfl⟩
    exact hp.wait (.call kind) rfl hcall.1 hcall.2
  | letWord kind =>
    have hlet : t.kind.isNode = true ∧ t.kind.isOperand = false := by
      rw [kind]
      exact ⟨rfl, rfl⟩
    exact hp.wait (.letWord kind) rfl hlet.1 hlet.2
  | operator bound top =>
    obtain ⟨hnode, hoperand⟩ := Kind.isNode_of_binding bound
    exact hp.wait (.operator bound top) rfl hnode hoperand

/-- A group that ends leaves the tokens of its operand, or else that of the empty tuple. -/
theorem Leaves.tokens {n : Nat} {x : Tree} {xs rest : List Tree} (h : Leaves t n xs x rest) :
    (x :: rest).flatMap Tree.tokens
      = (if n < xs.length then [] else [Ledger.unit t]) ++ xs.flatMap Tree.tokens := by
  cases h with
  | full h =>
    have hlt : n < (x :: rest).length := Nat.lt_succ_of_le h
    rw [if_pos hlt, List.nil_append]
  | empty h =>
    rw [if_neg (Nat.not_lt_of_le h), List.flatMap_cons]
    rfl

/-- The end of a group, which is an operand of the group around it. -/
theorem Accounts.leave {opening : Token} {n : Nat} {x : Tree} {xs : List Tree}
    (hp : Accounts ts p) (kind : t.kind = .closeParen)
    (pending : p.pending = .paren opening n :: ms) (group : Leaves t n p.operands x xs) :
    Accounts (ts ++ [t]) { p with operands := x :: xs, pending := ms } := by
  have hbelow := group.le_length (hp.layered.count_le pending)
  have hopened : (Ledger.of ts).opened
      = (opening, decide (n < p.operands.length)) :: groups n ms := by
    rw [hp.opened, pending]
    rfl
  have hclose : Ledger.of (ts ++ [t]) = ⟨fill (groups n ms),
      (if n < p.operands.length then [] else [Ledger.unit t]) ++ (Ledger.of ts).units⟩ := by
    rw [Ledger.of_concat, Ledger.enter_of_closeParen kind, Ledger.close, hopened]
    by_cases hn : n < p.operands.length <;> simp [hn]
  refine ⟨hp.layered.leave pending (Nat.le_succ_of_le hbelow), ?_, ?_⟩
  · have hnode : t.kind.isNode = false := by
      rw [kind]
      rfl
    rw [List.perm_iff_count]
    intro a
    have hcount := hp.holds.count_eq a
    simp only [held, due, hopened, pending, List.map_cons, Marker.token, List.count_append,
      List.count_cons] at hcount
    simp only [held, due, hclose, group.tokens, map_fst_fill, List.filter_append, List.filter_cons,
      hnode, Bool.false_eq_true, if_false, List.filter_nil, List.append_nil, List.count_append]
    omega
  · have hxs : ({ p with operands := xs, pending := ms } : Parser).Layered :=
      hp.layered.leave pending hbelow
    rw [hclose]
    exact (hxs.groups_above (Nat.lt_succ_of_le hxs.floor_le) n).symm

/-- A token that is taken in leaves all of them accounted for. -/
theorem Arrives.accounts (h : Arrives t p (q, none)) (hp : Accounts ts p) :
    Accounts (ts ++ [t]) q := by
  have hl := h.layered hp.layered
  cases h with
  | unread kind =>
    refine hp.skip ?_ ?_ ?_ <;> rw [kind] <;> decide
  | lexical kind | refused kind =>
    have hskip : Accounts (ts ++ [t]) p := by
      refine hp.skip ?_ ?_ ?_ <;> rw [kind] <;> decide
    exact hskip.recast hl (.refl _) rfl
  | operand kind => exact hp.operand kind
  | marker h => exact hp.marker h
  | value kind pending free group =>
    refine (hp.leave kind pending group).recast hl ?_ rfl
    simp only [held, List.flatMap_cons, Tree.tokens_closeTuple]
    exact .refl _
  | argument kind pending group =>
    refine (hp.leave kind pending group).recast hl ?_ rfl
    -- The call's token goes from its marker into its tree.
    rw [List.perm_iff_count]
    intro a
    simp only [held, List.flatMap_cons, Tree.tokens_branch, List.flatMap_nil, List.map_cons,
      Marker.token, List.append_nil, List.count_append, List.count_cons]
    omega
  | semicolon kind h =>
    have hskip : Accounts (ts ++ [t]) p := by
      refine hp.skip ?_ ?_ ?_ <;> rw [kind] <;> decide
    cases h with
    | done pending => exact hskip.recast hl (.refl _) rfl

/-- Tokens that are taken in one after the other are all accounted for. -/
theorem Takes.accounts {us : List Token} (h : Takes us p q) (hp : Accounts ts p) :
    Accounts (ts ++ us) q := by
  induction us generalizing ts p with
  | nil =>
    rw [List.append_nil, ← show p = q from h]
    exact hp
  | cons t us ih =>
    obtain ⟨r, hr, hus⟩ := h
    have hwalk := push_walks t p
    rw [hr] at hwalk
    obtain ⟨s, hs, harrives⟩ := hwalk.exists_end hp (fun hr => hr.accounts) rfl
    rw [List.append_cons]
    exact ih hus (harrives.accounts hs)

/-- The end of a statement leaves no group open, and all that is held in trees. -/
theorem Accounts.finish (hp : Accounts ts p) {trees : List Tree} (h : p.finish.2 = .ok trees) :
    (Ledger.of ts).opened = [] ∧ (trees.flatMap Tree.tokens).Perm (due ts) := by
  rcases finish_cases p with ⟨q, hq, hfinish⟩ | ⟨q, d, -, hfinish⟩
  · rw [hfinish] at h
    cases h
    have hwalk := drain_walks p
    rw [hq] at hwalk
    obtain ⟨r, hr, hend⟩ := hwalk.exists_end hp (fun hr => hr.accounts) rfl
    cases hend with
    | done pending =>
      have hopened := hr.opened
      have hholds := hr.holds
      rw [pending] at hopened
      rw [held, pending, List.map_nil, List.append_nil] at hholds
      exact ⟨hopened, ((List.reverse_perm _).flatMap_right _).trans hholds⟩
  · rw [hfinish] at h
    cases h

/-- A parser that has taken tokens without a failure holds the tokens for the trees, those of the
parentheses that are open, and one empty tuple for each group that ended without an operand. If it
can be finished, no parenthesis is open, and the trees have each of their tokens as often as it was
pushed. -/
theorem tokens_accounted (ts : List Token) (p : Parser)
    (h : pushAll ts empty = (p, ts.length, none)) :
    p.held.Perm (ts.filter (·.kind.isNode) ++ (Ledger.of ts).opened.map Prod.fst
        ++ (Ledger.of ts).units) ∧
      ∀ trees : List Tree, p.finish.2 = .ok trees →
        (trees.flatMap Tree.tokens).Perm (ts.filter (·.kind.isNode) ++ (Ledger.of ts).units) ∧
        ∀ t : Token, t.kind.isNode = true → t.kind ≠ .emptyTuple →
          (trees.flatMap Tree.tokens).count t = ts.count t := by
  have hp : Accounts ts p := (takes_iff_pushAll.mpr h).accounts accounts_empty
  refine ⟨hp.holds, fun trees htrees => ?_⟩
  obtain ⟨hopened, hperm⟩ := hp.finish htrees
  rw [due, hopened, List.map_nil, List.append_nil] at hperm
  refine ⟨hperm, fun t hn hkind => ?_⟩
  have hunits : (Ledger.of ts).units.count t = 0 :=
    List.count_eq_zero_of_not_mem fun ht => hkind (Ledger.kind_of_mem_units ht)
  rw [hperm.count_eq t, List.count_append, hunits, Nat.add_zero]
  exact List.count_filter hn

/-- The tokens of `f(() + 1)`. -/
def callOfUnit : List Token :=
  [⟨.function, "f", 0, 1, "shell"⟩, ⟨.openParen, "(", 1, 2, "shell"⟩,
    ⟨.openParen, "(", 2, 3, "shell"⟩, ⟨.closeParen, ")", 3, 4, "shell"⟩,
    ⟨.operator .add, "+", 5, 6, "shell"⟩, ⟨.integer, "1", 7, 8, "shell"⟩,
    ⟨.closeParen, ")", 8, 9, "shell"⟩]

/-- The tree of `f(() + 1)` has three of its tokens, and the empty tuple of the inner group. -/
theorem tokens_accounted_callOfUnit :
    ∃ t : Tree, (pushAll callOfUnit empty).1.finish.2 = .ok [t] ∧
      ([t].flatMap Tree.tokens).Perm
        [⟨.function, "f", 0, 1, "shell"⟩, ⟨.operator .add, "+", 5, 6, "shell"⟩,
          ⟨.integer, "1", 7, 8, "shell"⟩, ⟨.emptyTuple, "()", 3, 4, "shell"⟩] :=
  ⟨_, rfl, ((tokens_accounted callOfUnit (pushAll callOfUnit empty).1 rfl).2 _ rfl).1⟩

end Parser

end ExprYard
