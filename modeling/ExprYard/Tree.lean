import ExprYard.Token

/-!
# Syntax trees

A node holds the token it stands for and its children: an operator its operands, a call or a
declaration the one thing it is about, and a value nothing.

A list such as `1, 2, 3` is a chain of comma nodes that nests to the left. The chain of a list that
has parentheses of its own, and is therefore one value, carries the flag `tuple` on each of its
links; `closeTuple` sets it. That is how `f((1, 2), 3)` keeps two arguments and `f(1, 2, 3)` three:
`arguments` takes a chain apart only along links without the flag.
-/

namespace ExprYard

/-- A tree of tokens. The flag `tuple` is meant for the links of a comma chain. -/
inductive Tree where
  | node (token : Token) (children : List Tree) (tuple : Bool)

namespace Tree

mutual

/-- Trees are compared node by node, flags included. -/
def decEq : (a b : Tree) → Decidable (a = b)
  | .node t cs f, .node u ds g =>
    if h : t = u ∧ f = g then
      match decEqList cs ds with
      | isTrue hc => isTrue (by rw [h.1, h.2, hc])
      | isFalse hc => isFalse fun he => hc (by cases he; rfl)
    else isFalse fun he => h (by cases he; exact ⟨rfl, rfl⟩)

/-- Lists of trees are compared tree by tree. -/
def decEqList : (as bs : List Tree) → Decidable (as = bs)
  | [], [] => isTrue rfl
  | [], _ :: _ => isFalse (fun he => nomatch he)
  | _ :: _, [] => isFalse (fun he => nomatch he)
  | a :: as, b :: bs =>
    match decEq a b with
    | isTrue ha =>
      match decEqList as bs with
      | isTrue hs => isTrue (by rw [ha, hs])
      | isFalse hs => isFalse fun he => hs (by cases he; rfl)
    | isFalse ha => isFalse fun he => ha (by cases he; rfl)

end

instance : DecidableEq Tree := decEq

/-- A tree for a token over the given children. -/
def branch (token : Token) (children : List Tree) : Tree :=
  .node token children false

/-- A tree for a token that stands alone. -/
def leaf (token : Token) : Tree :=
  branch token []

/-- The empty tuple `()`, which stands where its closing parenthesis does. -/
def unit (span : Span) : Tree :=
  leaf ⟨.emptyTuple, "()", span⟩

/-- The token that a tree stands for. -/
def token : Tree → Token
  | .node t _ _ => t

/-- The children of a tree, in source order. -/
def children : Tree → List Tree
  | .node _ cs _ => cs

/-- Whether a tree carries the flag of a closed tuple. -/
def tuple : Tree → Bool
  | .node _ _ f => f

/-- Whether a tree has no children. -/
def isLeaf (t : Tree) : Bool :=
  t.children.isEmpty

/-- Whether a tree is the empty tuple. -/
def isUnit (t : Tree) : Bool :=
  t.token.kind = .emptyTuple

/-- Whether a tree is a link of a comma chain. -/
def isComma (t : Tree) : Bool :=
  t.token.kind = .keyword .comma && t.children.length = 2

/-- Whether a tree is a link of a comma chain that is still open: its comma separates the elements
of the list around it. -/
def isSeparator (t : Tree) : Bool :=
  t.isComma && !t.tuple

/-- Whether a tree is a closed comma chain, such as `(1, 2)`. -/
def isTuple (t : Tree) : Bool :=
  t.isComma && t.tuple

/-- Closes the comma chain that starts at the root: flags each link down the first children, up to
the first node that is no open link. Tuples among the elements stay as they are. -/
def closeTuple : Tree → Tree
  | .node t [] f => .node t [] f
  | .node t (c :: cs) f =>
    if (node t (c :: cs) f).isSeparator then .node t (c.closeTuple :: cs) true
    else .node t (c :: cs) f

/-- The elements of the open comma chain that starts at the root, from left to right. A tree that
is no open link is the only element. -/
def elements : Tree → List Tree
  | .node t [a, b] f =>
    if (node t [a, b] f).isSeparator then a.elements ++ [b] else [.node t [a, b] f]
  | .node t cs f => [.node t cs f]

/-- The arguments of a call, from left to right: the elements of its list, and none for the empty
tuple. -/
def arguments (t : Tree) : List Tree :=
  match t.children with
  | [] => []
  | list :: _ => if list.isUnit then [] else list.elements

/-- Closes the comma chain at the node that the path of child indices leads to. -/
def closeTupleAt : List Nat → Tree → Tree
  | [], t => t.closeTuple
  | i :: path, .node t cs f => .node t (cs.modify i (closeTupleAt path)) f

mutual

/-- The display text of a tree: a token's text, and for a tree with children the texts of token and
children in parentheses. -/
def text : Tree → String
  | .node t [] _ => t.text
  | .node t (c :: cs) _ => "(" ++ t.text ++ texts (c :: cs) ++ ")"

/-- The display texts of trees, a space before each. -/
def texts : List Tree → String
  | [] => ""
  | c :: cs => " " ++ c.text ++ texts cs

end

mutual

/-- Every node of a tree before its children: how many children it has, its token and its flag. -/
def nodes : Tree → List (Nat × Token × Bool)
  | .node t cs f => (cs.length, t, f) :: nodesOfList cs

/-- The nodes of one tree after the other. -/
def nodesOfList : List Tree → List (Nat × Token × Bool)
  | [] => []
  | c :: cs => c.nodes ++ nodesOfList cs

end

theorem nodesOfList_eq_flatMap (cs : List Tree) : nodesOfList cs = cs.flatMap nodes := by
  induction cs with
  | nil => rfl
  | cons c cs ih => rw [nodesOfList, ih, List.flatMap_cons]

theorem nodes_node (t : Token) (cs : List Tree) (f : Bool) :
    (node t cs f).nodes = (cs.length, t, f) :: cs.flatMap nodes := by
  rw [nodes, nodesOfList_eq_flatMap]

end Tree

end ExprYard
