import ExprYard.Proofs.Chains
import ExprYard.Proofs.Parser.Requests

/-!
# The shape of a parser's trees

The token of a node decides how many children the node has: as many as its operator takes, one where
it stands for a call or a declaration, and none where it is a value. Only a comma between two trees
carries the flag of a closed tuple. However a parser is asked, and whatever it has failed at, it
makes no other nodes (`trees_shaped`).

A parser takes as many operands for a marker as the marker demands, so the invariant is about
markers as well as trees: what a marker demands is the rank of its token. Flags come from closing a
chain of commas alone, and each link of a chain is a comma between two trees
(`Tree.Shaped.closeTuple`).
-/

namespace ExprYard

namespace Kind

/-- How many children a node of a kind has. -/
def rank : Kind → Nat
  | operator op => op.arity.operands
  | keyword .comma | keyword .typeSeparator | keyword .assign => 2
  | function | type .tuple | keyword .letWord => 1
  | _ => 0

theorem rank_of_isOperand {kind : Kind} (h : kind.isOperand = true) : kind.rank = 0 := by
  cases kind with
  | integer | float | string | char | identifier | emptyTuple => rfl
  | type word =>
    cases word with
    | tuple => cases h
    | i32 | f32 | bool | string | rune => rfl
  | eof | error | invalid | openParen | closeParen | function | operator | keyword => cases h

/-- What takes operands by a binding has them as its children. -/
theorem rank_of_binding {kind : Kind} {b : Binding} (h : kind.binding = some b) :
    kind.rank = b.arity.operands := by
  cases kind with
  | operator op =>
    cases h
    rfl
  | keyword word =>
    cases word with
    | comma | typeSeparator | assign =>
      cases h
      rfl
    | semicolon | letWord => cases h
  | _ => cases h

end Kind

namespace Tree

/-- Each node has the children that its token asks for, and the flag of a closed tuple only where
its token is a comma between two trees. -/
structure Shaped (x : Tree) : Prop where
  rank : ∀ n ∈ x.nodes, n.1 = n.2.1.kind.rank
  tuple : ∀ n ∈ x.nodes, n.2.2 = true → n.2.1.kind = .keyword .comma ∧ n.1 = 2

variable {t : Token} {cs : List Tree} {f : Bool} {x : Tree}

/-- A tree is shaped when its root is and its children are. -/
theorem shaped_node_iff : (node t cs f).Shaped ↔
    cs.length = t.kind.rank ∧ (f = true → t.kind = .keyword .comma) ∧ ∀ c ∈ cs, c.Shaped := by
  constructor
  · intro h
    have hrank := h.rank
    have htuple := h.tuple
    rw [nodes_node] at hrank htuple
    obtain ⟨hroot, hbelow⟩ := List.forall_mem_cons.mp hrank
    obtain ⟨hflag, hflags⟩ := List.forall_mem_cons.mp htuple
    refine ⟨hroot, fun hf => (hflag hf).1, fun c hc => ⟨?_, ?_⟩⟩
    · intro n hn
      exact hbelow n (List.mem_flatMap.mpr ⟨c, hc, hn⟩)
    · intro n hn
      exact hflags n (List.mem_flatMap.mpr ⟨c, hc, hn⟩)
  · rintro ⟨hroot, hflag, hcs⟩
    constructor
    · rw [nodes_node]
      refine List.forall_mem_cons.mpr ⟨hroot, fun n hn => ?_⟩
      obtain ⟨c, hc, hn⟩ := List.mem_flatMap.mp hn
      exact (hcs c hc).rank n hn
    · rw [nodes_node]
      refine List.forall_mem_cons.mpr ⟨fun hf => ⟨hflag hf, ?_⟩, fun n hn => ?_⟩
      · rw [hroot, hflag hf]
        rfl
      · obtain ⟨c, hc, hn⟩ := List.mem_flatMap.mp hn
        exact (hcs c hc).tuple n hn

theorem shaped_branch (h : cs.length = t.kind.rank) (hcs : ∀ c ∈ cs, c.Shaped) :
    (branch t cs).Shaped :=
  shaped_node_iff.mpr ⟨h, fun hf => (nomatch hf), hcs⟩

theorem shaped_leaf (h : t.kind.rank = 0) : (leaf t).Shaped :=
  shaped_branch h.symm fun _ hc => nomatch hc

/-- Closing a chain flags commas and leaves every node its children. -/
theorem Shaped.closeTuple (h : x.Shaped) : x.closeTuple.Shaped := by
  induction x using chain_induct with
  | stop x hx => rwa [closeTuple_of_not_isSeparator hx]
  | link t a b ht ih =>
    obtain ⟨hroot, -, hcs⟩ := shaped_node_iff.mp h
    obtain ⟨ha, hb⟩ := List.forall_mem_cons.mp hcs
    rw [closeTuple_comma ht]
    exact shaped_node_iff.mpr ⟨hroot, fun _ => ht, List.forall_mem_cons.mpr ⟨ih ha, hb⟩⟩

end Tree

namespace Parser

/-- The trees of a parser are shaped, and each of its markers demands as many operands as the node
of its token has children. -/
structure Shaped (p : Parser) : Prop where
  operands : ∀ x ∈ p.operands, x.Shaped
  pending : ∀ m ∈ p.pending, m.token.kind.rank = m.demand

variable {p q : Parser} {t : Token} {m : Marker} {ms : List Marker}

theorem shaped_empty : empty.Shaped where
  operands := fun _ hx => nomatch hx
  pending := fun _ hm => nomatch hm

/-- What holds of all markers holds of the latest, and of those behind it. -/
theorem Shaped.latest (h : p.Shaped) (hp : p.pending = m :: ms) :
    m.token.kind.rank = m.demand ∧ ∀ m ∈ ms, m.token.kind.rank = m.demand := by
  have hall := h.pending
  rw [hp] at hall
  exact List.forall_mem_cons.mp hall

/-- A fold makes a node with the operands that its marker demands. -/
theorem Reduces.shaped (h : Reduces p q) (hp : p.Shaped) : q.Shaped := by
  cases h with
  | @fold m ms xs rest pending folded operands demand reach =>
    obtain ⟨hm, hms⟩ := hp.latest pending
    have hall := hp.operands
    rw [operands] at hall
    obtain ⟨hxs, hrest⟩ := List.forall_mem_append.mp hall
    refine ⟨List.forall_mem_cons.mpr ⟨?_, hrest⟩, hms⟩
    apply Tree.shaped_branch
    · rw [List.length_reverse, demand, hm]
    · intro x hx
      exact hxs x (List.mem_reverse.mp hx)

/-- A walk whose end keeps trees shaped keeps them so all the way. -/
theorem Walks.shaped {End : Parser → Outcome → Prop} {o : Outcome} (hw : Walks End p o)
    (hp : p.Shaped) (hend : ∀ {q : Parser} {o : Outcome}, End q o → q.Shaped → o.1.Shaped) :
    o.1.Shaped :=
  hw.keeps (J := fun o => o.1.Shaped) hp (fun hr => hr.shaped) hend fun pending _ hq =>
    ⟨hq.operands, (hq.latest pending).2⟩

theorem Ends.shaped {o : Outcome} (h : Ends p o) (hp : p.Shaped) : o.1.Shaped := by
  cases h with
  | done => exact ⟨hp.operands, hp.pending⟩
  | unclosed pending => exact ⟨hp.operands, (hp.latest pending).2⟩

/-- What a group leaves is one of its trees or the empty tuple. -/
theorem Leaves.shaped {n : Nat} {xs rest : List Tree} {x : Tree} (h : Leaves t n xs x rest)
    (hxs : ∀ y ∈ xs, y.Shaped) : x.Shaped ∧ ∀ y ∈ rest, y.Shaped := by
  cases h with
  | full => exact List.forall_mem_cons.mp hxs
  | empty => exact ⟨Tree.shaped_leaf rfl, hxs⟩

theorem Awaits.rank {m : Marker} (h : Awaits t p m) : m.token.kind.rank = m.demand := by
  cases h with
  | call kind => rcases kind with kind | kind <;> exact congrArg Kind.rank kind
  | paren kind | letWord kind => exact congrArg Kind.rank kind
  | operator bound => exact Kind.rank_of_binding bound

theorem Arrives.shaped {o : Outcome} (h : Arrives t p o) (hp : p.Shaped) : o.1.Shaped := by
  cases h with
  | unread | lexical | refused => exact ⟨hp.operands, hp.pending⟩
  | operand kind =>
    have hleaf := Tree.shaped_leaf (Kind.rank_of_isOperand kind)
    exact ⟨List.forall_mem_cons.mpr ⟨hleaf, hp.operands⟩, hp.pending⟩
  | marker h => exact ⟨hp.operands, List.forall_mem_cons.mpr ⟨h.rank, hp.pending⟩⟩
  | value _ pending _ group =>
    obtain ⟨hx, hxs⟩ := group.shaped hp.operands
    exact ⟨List.forall_mem_cons.mpr ⟨hx.closeTuple, hxs⟩, (hp.latest pending).2⟩
  | @argument opening f n ms x xs _ pending group =>
    obtain ⟨hx, hxs⟩ := group.shaped hp.operands
    obtain ⟨hcall, hms⟩ := List.forall_mem_cons.mp (hp.latest pending).2
    have hnode : (Tree.branch f [x]).Shaped :=
      Tree.shaped_branch hcall.symm (List.forall_mem_singleton.mpr hx)
    exact ⟨List.forall_mem_cons.mpr ⟨hnode, hxs⟩, hms⟩
  | unreached _ pending group =>
    obtain ⟨hx, hxs⟩ := group.shaped hp.operands
    obtain ⟨-, hms⟩ := List.forall_mem_cons.mp (hp.latest pending).2
    exact ⟨List.forall_mem_cons.mpr ⟨hx, hxs⟩, hms⟩
  | unopened => exact ⟨hp.operands, fun m hm => hp.pending m (List.mem_of_mem_tail hm)⟩
  | semicolon _ h => exact h.shaped hp

theorem Shaped.push (h : p.Shaped) (t : Token) : (p.push t).1.Shaped :=
  (push_walks t p).shaped h fun he => he.shaped

theorem Shaped.drain (h : p.Shaped) : p.drain.1.Shaped :=
  (drain_walks p).shaped h fun he => he.shaped

/-- A request to finish leaves shaped trees, and hands over no others. -/
theorem Shaped.finish (h : p.Shaped) :
    p.finish.1.Shaped ∧ ∀ trees, p.finish.2 = .ok trees → ∀ x ∈ trees, x.Shaped := by
  have hdrain := h.drain
  rcases finish_cases p with ⟨q, hq, hfinish⟩ | ⟨q, d, hq, hfinish⟩
  · rw [hq] at hdrain
    rw [hfinish]
    refine ⟨⟨fun _ hx => (nomatch hx), hdrain.pending⟩, fun trees ht x hx => ?_⟩
    cases ht
    exact hdrain.operands x (List.mem_reverse.mp hx)
  · rw [hq] at hdrain
    rw [hfinish]
    exact ⟨hdrain, fun trees ht => nomatch ht⟩

theorem Shaped.handle (h : p.Shaped) (r : Request) : (p.handle r).Shaped := by
  cases r with
  | push t => exact h.push t
  | finish => exact h.finish.1

/-- However it was asked, and whatever it has failed at, every node of a tree that a parser has or
hands over has the children that its token asks for, and only commas between two trees are flagged
as closed tuples. -/
theorem trees_shaped (rs : List Request) :
    (∀ x ∈ (empty.after rs).operands, x.Shaped) ∧
      ∀ trees, (empty.after rs).finish.2 = .ok trees → ∀ x ∈ trees, x.Shaped := by
  have h : (empty.after rs).Shaped := after_invariant shaped_empty (fun _ r hq => hq.handle r) rs
  exact ⟨h.operands, h.finish.2⟩

end Parser

end ExprYard
