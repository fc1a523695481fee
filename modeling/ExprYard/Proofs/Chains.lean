import ExprYard.Tree
import Mathlib.Data.List.Basic

/-!
# Chains of commas

A list nests to the left: its last comma is the root, and down first children one comes from comma
to comma for as long as they are open links. `OnChain` says which nodes these are. Closing a tree is
a walk down that chain that flags its links, and the arguments of a call are collected by a
recursion of its own. `closing_marks_chain` says for any tree that the two are about the same chain:
closing flags exactly its links and changes nothing else, and the arguments are exactly what hangs
off it (`OffChain`), from left to right.

Every proof is by the one induction that the chain allows (`chain_induct`): either the root is no
open link, or it is one and the rest of the chain is that of its first child. Nothing is assumed of
how the tree came about, so flags may stand anywhere in it, and commas may have any number of
children.
-/

namespace ExprYard

namespace Tree

variable {x : Tree} {t : Token} {cs : List Tree} {f : Bool} {a b : Tree}

/-! ## Open links -/

theorem isSeparator_comma (ht : t.kind = .keyword .comma) (a b : Tree) :
    (node t [a, b] false).isSeparator = true := by
  simp [isSeparator, isComma, token, children, tuple, ht]

theorem not_isSeparator_of_kind (h : t.kind ≠ .keyword .comma) :
    (node t cs f).isSeparator = false := by
  simp [isSeparator, isComma, token, h]

theorem not_isSeparator_of_tuple (t : Token) (cs : List Tree) :
    (node t cs true).isSeparator = false := by
  simp [isSeparator, tuple]

/-- An open link is a comma between two trees, without a flag. -/
theorem exists_of_isSeparator (h : x.isSeparator = true) :
    ∃ t a b, x = node t [a, b] false ∧ t.kind = .keyword .comma := by
  obtain ⟨t, cs, f⟩ := x
  simp only [isSeparator, isComma, token, children, tuple, Bool.and_eq_true,
    Bool.not_eq_true'] at h
  obtain ⟨⟨ht, hlen⟩, rfl⟩ := h
  obtain ⟨a, b, rfl⟩ := List.length_eq_two.mp (of_decide_eq_true hlen)
  exact ⟨t, a, b, rfl, of_decide_eq_true ht⟩

/-- What holds of any tree that is no open link, and of an open link where it holds of the first
child, holds of any tree. -/
theorem chain_induct {P : Tree → Prop} (stop : ∀ x : Tree, x.isSeparator = false → P x)
    (link : ∀ (t : Token) (a b : Tree), t.kind = .keyword .comma → P a → P (node t [a, b] false))
    (x : Tree) : P x := by
  induction x using closeTuple.induct with
  | case1 t f => exact stop _ (by simp [isSeparator, isComma, children])
  | case2 t f c cs hs ih =>
    obtain ⟨u, a, b, hx, hu⟩ := exists_of_isSeparator hs
    cases hx
    exact link _ _ _ hu ih
  | case3 t f c cs hs => exact stop _ (eq_false_of_ne_true hs)

/-- A tree that is no open link of a chain is left as it is. -/
theorem closeTuple_of_not_isSeparator (h : x.isSeparator = false) : x.closeTuple = x := by
  obtain ⟨t, cs, f⟩ := x
  cases cs with
  | nil => rw [closeTuple]
  | cons c cs =>
    rw [closeTuple, h]
    rfl

theorem closeTuple_comma (ht : t.kind = .keyword .comma) (a b : Tree) :
    (node t [a, b] false).closeTuple = node t [a.closeTuple, b] true := by
  rw [closeTuple, if_pos (isSeparator_comma ht a b)]

theorem elements_of_not_isSeparator (h : x.isSeparator = false) : x.elements = [x] := by
  unfold elements
  split
  · rw [if_neg (by rw [h]; decide)]
  · rfl

theorem elements_comma (ht : t.kind = .keyword .comma) (a b : Tree) :
    (node t [a, b] false).elements = a.elements ++ [b] := by
  rw [elements, if_pos (isSeparator_comma ht a b)]

/-! ## Nodes by their paths -/

/-- The node that a path of child indices leads to from the root, if there is one. -/
def at? : Tree → List Nat → Option Tree
  | x, [] => some x
  | x, i :: path => x.children[i]?.bind fun c => c.at? path

/-- The path leads to a link of the chain that starts at the root: down first children, through
commas between two trees that carry no flag. -/
inductive OnChain : Tree → List Nat → Prop where
  | root {t : Token} {a b : Tree} (comma : t.kind = .keyword .comma) :
      OnChain (node t [a, b] false) []
  | down {t : Token} {a b : Tree} {path : List Nat} (comma : t.kind = .keyword .comma)
      (below : OnChain a path) : OnChain (node t [a, b] false) (0 :: path)

/-- The path leads to what hangs off the chain that starts at the root: to a child of one of its
links, or to the root itself, and not to a link. -/
def OffChain (x : Tree) (path : List Nat) : Prop :=
  ¬ x.OnChain path ∧ (x.at? path).isSome = true ∧
    (path = [] ∨ ∃ link i, path = link ++ [i] ∧ x.OnChain link)

variable {path : List Nat}

theorem not_onChain (h : x.isSeparator = false) (path : List Nat) : ¬ x.OnChain path := by
  intro hpath
  cases hpath with
  | root comma | down comma =>
    rw [isSeparator_comma comma] at h
    cases h

/-- A path to a link of the chain leads to a comma between two trees that carries no flag. -/
theorem OnChain.exists_at? (h : x.OnChain path) :
    ∃ t a b, x.at? path = some (node t [a, b] false) ∧ t.kind = .keyword .comma := by
  induction h with
  | @root t a b comma => exact ⟨t, a, b, rfl, comma⟩
  | down comma below ih => exact ih

/-- The chain of an open link is the link itself and the chain of its first child. -/
theorem onChain_comma (ht : t.kind = .keyword .comma) (a b : Tree) :
    (node t [a, b] false).OnChain path ↔ path = [] ∨ ∃ rest, path = 0 :: rest ∧ a.OnChain rest := by
  constructor
  · intro h
    cases h with
    | root => exact .inl rfl
    | down _ below => exact .inr ⟨_, rfl, below⟩
  · rintro (rfl | ⟨rest, rfl, h⟩)
    · exact .root ht
    · exact .down ht h

theorem offChain_of_not_isSeparator (h : x.isSeparator = false) : x.OffChain path ↔ path = [] := by
  constructor
  · rintro ⟨-, -, hpath | ⟨link, i, -, hlink⟩⟩
    · exact hpath
    · exact absurd hlink (not_onChain h link)
  · rintro rfl
    exact ⟨not_onChain h [], rfl, .inl rfl⟩

/-- Off the chain of an open link hangs what hangs off the chain of its first child, and its second
child. -/
theorem offChain_comma (ht : t.kind = .keyword .comma) (a b : Tree) :
    (node t [a, b] false).OffChain path ↔
      (∃ rest, path = 0 :: rest ∧ a.OffChain rest) ∨ path = [1] := by
  constructor
  · rintro ⟨hoff, hsome, rfl | ⟨link, i, rfl, hlink⟩⟩
    · exact absurd (.root ht) hoff
    · rw [onChain_comma ht] at hoff hlink
      rcases hlink with rfl | ⟨rest, rfl, hrest⟩
      · rcases i with _ | _ | i
        · exact .inl ⟨[], rfl, fun h => hoff (.inr ⟨[], rfl, h⟩), rfl, .inl rfl⟩
        · exact .inr rfl
        · cases hsome
      · refine .inl ⟨rest ++ [i], rfl, fun h => hoff (.inr ⟨_, rfl, h⟩), hsome, ?_⟩
        exact .inr ⟨rest, i, rfl, hrest⟩
  · rintro (⟨rest, rfl, hoff, hsome, hrest⟩ | rfl)
    · refine ⟨fun h => ?_, hsome, .inr ?_⟩
      · rcases (onChain_comma ht a b).mp h with h | ⟨rest', h, hon⟩
        · cases h
        · cases h
          exact hoff hon
      · rcases hrest with rfl | ⟨link, i, rfl, hlink⟩
        · exact ⟨[], 0, rfl, .root ht⟩
        · exact ⟨0 :: link, i, rfl, (onChain_comma ht a b).mpr (.inr ⟨link, rfl, hlink⟩)⟩
    · refine ⟨fun h => ?_, rfl, .inr ⟨[], 1, rfl, .root ht⟩⟩
      rcases (onChain_comma ht a b).mp h with h | ⟨rest, h, -⟩ <;> cases h

/-! ## Closing -/

/-- The second node is the first, with the flag of a closed tuple added if `closed` holds. -/
structure Flags (closed : Prop) (n m : Tree) : Prop where
  token : m.token = n.token
  children : m.children.length = n.children.length
  tuple : m.tuple = true ↔ n.tuple = true ∨ closed

theorem Flags.rfl_of_not {closed : Prop} (h : ¬ closed) : ∀ o : Option Tree,
    Option.Rel (Flags closed) o o
  | none => .none
  | some _ => .some ⟨rfl, rfl, ⟨.inl, fun hn => hn.resolve_right h⟩⟩

/-- Closing a tree flags the links of its chain. Every other node it leaves as it was. -/
theorem flags_closeTuple (x : Tree) (path : List Nat) :
    Option.Rel (Flags (x.OnChain path)) (x.at? path) (x.closeTuple.at? path) := by
  induction x using chain_induct generalizing path with
  | stop x hx =>
    rw [closeTuple_of_not_isSeparator hx]
    exact Flags.rfl_of_not (not_onChain hx path) _
  | link t a b ht ih =>
    rw [closeTuple_comma ht]
    rcases path with _ | ⟨_ | _ | i, rest⟩
    · exact .some ⟨rfl, rfl, ⟨fun _ => .inr (.root ht), fun _ => rfl⟩⟩
    · have hiff : (node t [a, b] false).OnChain (0 :: rest) ↔ a.OnChain rest := by
        rw [onChain_comma ht]
        simp
      rw [hiff]
      exact ih rest
    · refine Flags.rfl_of_not (fun h => ?_) (b.at? rest)
      rcases (onChain_comma ht a b).mp h with h | ⟨_, h, -⟩ <;> cases h
    · exact .none

theorem text_closeTuple (x : Tree) : x.closeTuple.text = x.text := by
  induction x using chain_induct with
  | stop x hx => rw [closeTuple_of_not_isSeparator hx]
  | link t a b ht ih =>
    rw [closeTuple_comma ht]
    simp only [text, texts, ih]

theorem not_isSeparator_closeTuple (x : Tree) : x.closeTuple.isSeparator = false := by
  induction x using chain_induct with
  | stop x hx => rwa [closeTuple_of_not_isSeparator hx]
  | link t a b ht _ =>
    rw [closeTuple_comma ht]
    exact not_isSeparator_of_tuple t _

theorem closeTuple_closeTuple (x : Tree) : x.closeTuple.closeTuple = x.closeTuple :=
  closeTuple_of_not_isSeparator (not_isSeparator_closeTuple x)

/-! ## Elements -/

/-- How many nodes carry the flag of a closed tuple. -/
def flagged (x : Tree) : Nat :=
  x.nodes.countP fun n => n.2.2

/-- There is one element more than closing would flag nodes. -/
theorem length_elements (x : Tree) : x.elements.length + x.flagged = x.closeTuple.flagged + 1 := by
  induction x using chain_induct with
  | stop x hx =>
    rw [elements_of_not_isSeparator hx, closeTuple_of_not_isSeparator hx]
    exact Nat.add_comm 1 x.flagged
  | link t a b ht ih =>
    rw [elements_comma ht, closeTuple_comma ht]
    simp only [flagged, nodes_node, List.flatMap_cons, List.flatMap_nil, List.append_nil,
      List.countP_cons, List.countP_append, List.length_append, List.length_cons, List.length_nil,
      Bool.false_eq_true, if_false, if_true] at ih ⊢
    omega

/-- The elements are the nodes that hang off the chain, from left to right. -/
theorem exists_paths_elements (x : Tree) : ∃ paths : List (List Nat),
    (∀ path, path ∈ paths ↔ x.OffChain path) ∧ paths.Pairwise (· < ·) ∧
      x.elements.map some = paths.map x.at? := by
  induction x using chain_induct with
  | stop x hx =>
    refine ⟨[[]], fun path => ?_, List.pairwise_singleton _ _, ?_⟩
    · rw [List.mem_singleton, offChain_of_not_isSeparator hx]
    · rw [elements_of_not_isSeparator hx]
      rfl
  | link t a b ht ih =>
    obtain ⟨paths, hmem, hsorted, helements⟩ := ih
    refine ⟨paths.map (0 :: ·) ++ [[1]], fun path => ?_, ?_, ?_⟩
    · rw [offChain_comma ht, List.mem_append, List.mem_map, List.mem_singleton]
      simp only [hmem, eq_comm (b := path), and_comm]
    · refine List.pairwise_append.mpr ⟨?_, List.pairwise_singleton _ _, ?_⟩
      · refine List.pairwise_map.mpr (hsorted.imp fun h => ?_)
        exact List.cons_lt_cons_iff.mpr (.inr ⟨rfl, h⟩)
      · intro p hp q hq
        obtain ⟨rest, -, rfl⟩ := List.mem_map.mp hp
        rw [List.mem_singleton.mp hq]
        exact List.cons_lt_cons_iff.mpr (.inl Nat.zero_lt_one)
    · rw [elements_comma ht, List.map_append, helements, List.map_append, List.map_map]
      rfl

/-- Closing a tree does not make it an empty tuple. -/
theorem isUnit_closeTuple (h : x.isUnit = false) : x.closeTuple.isUnit = false := by
  induction x using chain_induct with
  | stop x hx => rwa [closeTuple_of_not_isSeparator hx]
  | link t a b ht _ =>
    rw [closeTuple_comma ht]
    exact h

theorem arguments_node (hx : x.isUnit = false) (f : Token) (rest : List Tree) (flag : Bool) :
    (node f (x :: rest) flag).arguments = x.elements := by
  unfold arguments
  show (if x.isUnit = true then [] else x.elements) = _
  rw [hx]
  rfl

/-- Closing a tree and collecting the arguments of a call are about the same chain of open links,
whatever tree it is. Closing sets the flag on the links of the chain that starts at the root and
changes nothing else: no token, no child, no other flag, and not how the tree is displayed; to do it
again changes nothing at all. And a call whose list the tree is, provided that its root is not of
the kind of the empty tuple, has one argument more than closing would flag nodes: from left to
right, the nodes that hang off the chain. Once it is closed, the tree is the only argument. -/
theorem closing_marks_chain (x : Tree) :
    (∀ path, x.OnChain path →
        ∃ t a b, x.at? path = some (node t [a, b] false) ∧ t.kind = .keyword .comma) ∧
      (∀ path, Option.Rel (Flags (x.OnChain path)) (x.at? path) (x.closeTuple.at? path)) ∧
      x.closeTuple.text = x.text ∧ x.closeTuple.closeTuple = x.closeTuple ∧
      ∀ (f : Token) (rest : List Tree) (flag : Bool), x.isUnit = false →
        (node f (x :: rest) flag).arguments.length + x.flagged = x.closeTuple.flagged + 1 ∧
        (∃ paths : List (List Nat), (∀ path, path ∈ paths ↔ x.OffChain path) ∧
          paths.Pairwise (· < ·) ∧
          (node f (x :: rest) flag).arguments.map some = paths.map x.at?) ∧
        (node f (x.closeTuple :: rest) flag).arguments = [x.closeTuple] := by
  refine ⟨fun _ h => h.exists_at?, flags_closeTuple x, text_closeTuple x,
    closeTuple_closeTuple x, ?_⟩
  intro f rest flag hx
  rw [arguments_node hx, arguments_node (isUnit_closeTuple hx)]
  refine ⟨length_elements x, exists_paths_elements x, ?_⟩
  exact elements_of_not_isSeparator (not_isSeparator_closeTuple x)

/-- The list `(1, 2), 3` has a tuple for its first element, so closing flags one node, and a call
has two arguments. -/
theorem closing_marks_chain_tupleFirst :
    (node ⟨.function, "f", 0, 1, "shell"⟩ [node ⟨.keyword .comma, ",", 8, 9, "shell"⟩
      [node ⟨.keyword .comma, ",", 4, 5, "shell"⟩ [leaf ⟨.integer, "1", 3, 4, "shell"⟩,
        leaf ⟨.integer, "2", 6, 7, "shell"⟩] true,
      leaf ⟨.integer, "3", 10, 11, "shell"⟩] false] false).arguments.length + 1 = 2 + 1 :=
  ((closing_marks_chain (node ⟨.keyword .comma, ",", 8, 9, "shell"⟩
      [node ⟨.keyword .comma, ",", 4, 5, "shell"⟩ [leaf ⟨.integer, "1", 3, 4, "shell"⟩,
        leaf ⟨.integer, "2", 6, 7, "shell"⟩] true,
      leaf ⟨.integer, "3", 10, 11, "shell"⟩] false)).2.2.2.2
    ⟨.function, "f", 0, 1, "shell"⟩ [] false rfl).1

/-- A node of the kind of the empty tuple that has a child is no leaf, and still no argument. -/
theorem unit_node_no_argument :
    (node ⟨.emptyTuple, "()", 2, 4, "shell"⟩ [leaf ⟨.identifier, "a", 5, 6, "shell"⟩] false).isLeaf
        = false ∧
      (node ⟨.function, "f", 0, 1, "shell"⟩ [node ⟨.emptyTuple, "()", 2, 4, "shell"⟩
          [leaf ⟨.identifier, "a", 5, 6, "shell"⟩] false] false).arguments.length
        + (node ⟨.emptyTuple, "()", 2, 4, "shell"⟩
          [leaf ⟨.identifier, "a", 5, 6, "shell"⟩] false).flagged
        ≠ (node ⟨.emptyTuple, "()", 2, 4, "shell"⟩
          [leaf ⟨.identifier, "a", 5, 6, "shell"⟩] false).closeTuple.flagged + 1 := by
  decide

end Tree

end ExprYard
