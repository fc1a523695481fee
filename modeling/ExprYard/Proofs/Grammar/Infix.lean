import ExprYard.Tree

/-!
# Operands with operators between them

What `a + b * c` stands for is a matter of where it is split first: at the operator that binds most
loosely, and among equally loose ones at the last, or at the first if they associate to the right.
`Infix.tree` says so by recursion, with no stack.

A parser finds the same tree from left to right. It keeps the operators that still wait for their
right operand, with their left operands, and lets those that bind tightly enough have theirs when
the next operator comes. `Infix.stack` is that, and `collapse_stack` says that what it ends with is
the tree. The invariant is `Ordered`: each waiting operator is the place to split what has been read
since the one before it.
-/

namespace ExprYard

/-- A token that joins two operands, and how tightly. -/
structure Link where
  token : Token
  binding : Binding
  /-- The token is folded as the binding says. -/
  bound : token.kind.binding = some binding
  arity : binding.arity = .binary

namespace Link

/-- Whether the first of two operators lies deeper in the tree than the second, which stands to the
right of it: it binds more tightly, or as tightly as one that associates to the left. -/
def yieldsTo (a b : Link) : Bool :=
  b.binding.precedence < a.binding.precedence ||
    (b.binding.precedence = a.binding.precedence && b.binding.associativity = .left)

/-- An operator that yields to another is the one that is folded before it. -/
theorem foldsBefore_eq_yieldsTo (a b : Link) :
    a.binding.foldsBefore b.binding = a.yieldsTo b := by
  unfold Binding.foldsBefore yieldsTo
  cases b.binding.associativity with
  | left =>
    rw [Bool.eq_iff_iff]
    simp
    omega
  | right => simp

theorem yieldsTo_iff {a b : Link} : a.yieldsTo b = true ↔
    b.binding.precedence < a.binding.precedence ∨
      b.binding.precedence = a.binding.precedence ∧ b.binding.associativity = .left := by
  simp [yieldsTo]

theorem yieldsTo_trans {a b c : Link} (h : a.yieldsTo b = true) (g : b.yieldsTo c = true) :
    a.yieldsTo c = true := by
  rw [yieldsTo_iff] at h g ⊢
  grind

theorem not_yieldsTo_trans {a b c : Link} (h : ¬ a.yieldsTo b = true)
    (g : ¬ b.yieldsTo c = true) : ¬ a.yieldsTo c = true := by
  rw [yieldsTo_iff] at h g ⊢
  grind

end Link

/-- Operands with operators between them. -/
structure Infix (α : Type) where
  first : α
  rest : List (Link × α)

namespace Infix

variable {α : Type}

/-- A single operand. -/
def single (a : α) : Infix α :=
  ⟨a, []⟩

/-- Two rows of operands with an operator between them. -/
def join (i : Infix α) (b : Link) (j : Infix α) : Infix α :=
  ⟨i.first, i.rest ++ (b, j.first) :: j.rest⟩

/-- The operators of a row. -/
def links (i : Infix α) : List Link :=
  i.rest.map Prod.fst

/-- The last operand of a row. -/
def last (i : Infix α) : α :=
  i.rest.getLast?.elim i.first Prod.snd

@[simp] theorem links_single (a : α) : (single a).links = [] := rfl

@[simp] theorem links_join (i : Infix α) (b : Link) (j : Infix α) :
    (i.join b j).links = i.links ++ b :: j.links := by
  simp [links, join]

@[simp] theorem last_join (i : Infix α) (b : Link) (j : Infix α) :
    (i.join b j).last = j.last := by
  obtain ⟨x, rest⟩ := j
  cases rest with
  | nil => simp [last, join]
  | cons y rest => simp [last, join, List.getLast?_cons]

theorem last_single (a : α) : (single a).last = a := rfl

theorem join_assoc (i : Infix α) (b : Link) (j : Infix α) (c : Link) (k : Infix α) :
    (i.join b j).join c k = i.join b (j.join c k) := by
  simp [join]

/-! ## The tree of a row -/

/-- The operator at which a row is split, with its right neighbour, and what is before and behind
them: a row is split at the first operator that no later one takes the place of. -/
def root : List (Link × α) → Option (List (Link × α) × (Link × α) × List (Link × α))
  | [] => none
  | x :: xs =>
    match root xs with
    | none => some ([], x, xs)
    | some (pre, y, post) =>
      if x.1.yieldsTo y.1 then some (x :: pre, y, post) else some ([], x, xs)

theorem eq_nil_of_root {xs : List (Link × α)} (h : root xs = none) : xs = [] := by
  cases xs with
  | nil => rfl
  | cons x xs =>
    unfold root at h
    split at h
    · cases h
    · split at h <;> cases h

/-- The root of a row stands between what is before and behind it. All before it yield to it, and it
yields to none of those behind. -/
theorem of_root {xs pre post : List (Link × α)} {y : Link × α} (h : root xs = some (pre, y, post)) :
    xs = pre ++ y :: post ∧ (∀ x ∈ pre, x.1.yieldsTo y.1 = true) ∧
      ∀ z ∈ post, ¬ y.1.yieldsTo z.1 = true := by
  induction xs generalizing pre y post with
  | nil => cases h
  | cons x xs ih =>
    unfold root at h
    split at h
    · rename_i hr
      cases h
      refine ⟨rfl, by simp, ?_⟩
      rw [eq_nil_of_root hr]
      exact fun z hz => nomatch hz
    · rename_i pre' y' post' hr
      obtain ⟨rfl, hpre, hpost⟩ := ih hr
      split at h
      · rename_i hy
        cases h
        refine ⟨rfl, ?_, hpost⟩
        intro z hz
        rcases List.mem_cons.mp hz with rfl | hz
        · exact hy
        · exact hpre z hz
      · rename_i hy
        cases h
        refine ⟨rfl, by simp, ?_⟩
        intro z hz
        rcases List.mem_append.mp hz with hz | hz
        · intro hxz
          exact hy (Link.yieldsTo_trans hxz (hpre z hz))
        · rcases List.mem_cons.mp hz with rfl | hz
          · exact hy
          · exact Link.not_yieldsTo_trans hy (hpost z hz)

/-- No other operator of a row than its root has all before it yield to it and yields to none
behind it. -/
theorem root_append {pre post : List (Link × α)} {y : Link × α}
    (hpre : ∀ x ∈ pre, x.1.yieldsTo y.1 = true) (hpost : ∀ z ∈ post, ¬ y.1.yieldsTo z.1 = true) :
    root (pre ++ y :: post) = some (pre, y, post) := by
  induction pre with
  | nil =>
    show root (y :: post) = _
    unfold root
    split
    · rfl
    · rename_i pre' z post' hr
      obtain ⟨hp, -, -⟩ := of_root hr
      rw [if_neg (hpost z (by simp [hp]))]
  | cons x pre ih =>
    show root (x :: (pre ++ y :: post)) = _
    unfold root
    rw [ih fun z hz => hpre z (List.mem_cons_of_mem x hz)]
    dsimp only
    rw [if_pos (hpre x List.mem_cons_self)]

/-- The tree of a row: it is split at its root, and the two parts are the children of that
operator. -/
def tree (i : Infix Tree) : Tree :=
  match _h : root i.rest with
  | none => i.first
  | some (pre, y, post) => .branch y.1.token [tree ⟨i.first, pre⟩, tree ⟨y.2, post⟩]
termination_by i.rest.length
decreasing_by
  all_goals
    obtain ⟨hp, -, -⟩ := of_root _h
    simp only [hp, List.length_append, List.length_cons]
    omega

@[simp] theorem tree_single (a : Tree) : (single a).tree = a := by
  rw [tree]
  split
  · rfl
  · rename_i h
    cases h

/-- Where two rows are joined by the operator to split at, their trees are the children of it. -/
theorem tree_join {i j : Infix Tree} {b : Link} (hi : ∀ c ∈ i.links, c.yieldsTo b = true)
    (hj : ∀ d ∈ j.links, ¬ b.yieldsTo d = true) :
    (i.join b j).tree = .branch b.token [i.tree, j.tree] := by
  have hr : root (i.join b j).rest = some (i.rest, (b, j.first), j.rest) :=
    root_append (fun x hx => hi x.1 (List.mem_map_of_mem hx))
      (fun z hz => hj z.1 (List.mem_map_of_mem hz))
  rw [tree]
  split
  · rename_i h
    rw [hr] at h
    cases h
  · rename_i h
    rw [hr] at h
    cases h
    rfl

/-- A row of several operands has an operator at the root of its tree. -/
theorem tree_of_rest_ne_nil {i : Infix Tree} (h : i.rest ≠ []) :
    ∃ b ∈ i.links, ∃ l r, i.tree = .branch b.token [l, r] := by
  rw [tree]
  split
  · rename_i hr
    exact (h (eq_nil_of_root hr)).elim
  · rename_i pre y post hr
    obtain ⟨hp, -, -⟩ := of_root hr
    refine ⟨y.1, ?_, _, _, rfl⟩
    rw [links, hp]
    simp

end Infix

/-! ## The tree from left to right -/

/-- Operators that wait for their right operand, each with its left one, the latest first. -/
abbrev Stack := List (Tree × Link)

namespace Stack

/-- Every waiting operator has its operands, the last of which is `x`. -/
def collapse : Stack → Tree → Tree
  | [], x => x
  | (l, b) :: st, x => collapse st (.branch b.token [l, x])

/-- The lowest of the operators that wait, of which `b` is the latest. -/
def lowest (b : Link) : Stack → Link
  | [] => b
  | (_, c) :: st => lowest c st

/-- The waiting operators that are folded before `b` have their operands, the last of which is
`x`. -/
def yield (b : Link) : Stack → Tree → Stack × Tree
  | [], x => ([], x)
  | (l, c) :: st, x =>
    if c.binding.foldsBefore b.binding then yield b st (.branch c.token [l, x])
    else ((l, c) :: st, x)

end Stack

/-- The waiting operators before the last operand of a row, when the row has been read so far. -/
def Infix.stack (i : Infix Tree) : Stack :=
  go i.first i.rest []
where
  /-- Reads on from the operand `x`, with the given operators waiting. -/
  go (x : Tree) : List (Link × Tree) → Stack → Stack
    | [], st => st
    | (b, y) :: rest, st =>
      let (st, x) := Stack.yield b st x
      go y rest ((x, b) :: st)

/-- The operators that wait when a row is to go on behind the operator `b`. -/
def Infix.opened (i : Infix Tree) (b : Link) : Stack :=
  ((i.stack.yield b i.last).2, b) :: (i.stack.yield b i.last).1

/-- Rows that have been read, each with the operator that waits behind it, the latest first. -/
abbrev Rows := List (Infix Tree × Link)

namespace Rows

/-- The stack of the trees of rows. -/
def trees (rows : Rows) : Stack :=
  rows.map fun x => (x.1.tree, x.2)

/-- All rows joined to a last one. -/
def joined : Rows → Infix Tree → Infix Tree
  | [], g => g
  | (i, b) :: rows, g => joined rows (i.join b g)

/-- Each waiting operator is the place to split what has been read since the one before it. -/
def Ordered : Rows → Infix Tree → Prop
  | [], _ => True
  | (i, b) :: rows, g =>
    (∀ c ∈ i.links, c.yieldsTo b = true) ∧ (∀ d ∈ g.links, ¬ b.yieldsTo d = true) ∧
      Ordered rows (i.join b g)

/-- The latest waiting operator does not yield to `b`. -/
def Holds (rows : Rows) (b : Link) : Prop :=
  ∀ x ∈ rows.head?, ¬ x.2.yieldsTo b = true

theorem collapse_of_ordered {rows : Rows} {g : Infix Tree} (h : rows.Ordered g) :
    Stack.collapse rows.trees g.tree = (rows.joined g).tree := by
  induction rows generalizing g with
  | nil => rfl
  | cons x rows ih =>
    obtain ⟨i, b⟩ := x
    obtain ⟨hi, hg, hrest⟩ := h
    show Stack.collapse (trees rows) (.branch b.token [i.tree, g.tree]) = _
    rw [← Infix.tree_join hi hg]
    exact ih hrest

/-- The lowest waiting operator is the place to split all that has been read. -/
theorem lowest_of_ordered {i : Infix Tree} {b : Link} {rows : Rows} {g : Infix Tree}
    (h : Ordered ((i, b) :: rows) g) :
    ∃ before after, (joined ((i, b) :: rows) g).links
        = before ++ rows.trees.lowest b :: after ∧
      (∀ c ∈ before, c.yieldsTo (rows.trees.lowest b) = true) ∧
      ∀ d ∈ after, ¬ (rows.trees.lowest b).yieldsTo d = true := by
  induction rows generalizing i b g with
  | nil =>
    obtain ⟨hi, hg, -⟩ := h
    exact ⟨i.links, g.links, Infix.links_join i b g, hi, hg⟩
  | cons x rows ih => exact ih h.2.2

/-- Folding before an operator leaves rows that are in order, and joins those that yield to it. -/
theorem yield_of_ordered {rows : Rows} {g : Infix Tree} {b : Link} (h : rows.Ordered g)
    (hg : ∀ c ∈ g.links, c.yieldsTo b = true) :
    ∃ (rows' : Rows) (g' : Infix Tree),
      Stack.yield b rows.trees g.tree = (rows'.trees, g'.tree) ∧
      rows'.joined g' = rows.joined g ∧ rows'.Ordered g' ∧ rows'.Holds b ∧
      ∀ c ∈ g'.links, c.yieldsTo b = true := by
  induction rows generalizing g with
  | nil => exact ⟨[], g, rfl, rfl, trivial, fun x hx => (by cases hx), hg⟩
  | cons x rows ih =>
    obtain ⟨i, c⟩ := x
    have hall := h
    obtain ⟨hi, hd, hrest⟩ := h
    by_cases hc : c.yieldsTo b = true
    · have hlinks : ∀ d ∈ (i.join c g).links, d.yieldsTo b = true := by
        intro d hmem
        rw [Infix.links_join] at hmem
        rcases List.mem_append.mp hmem with hm | hm
        · exact Link.yieldsTo_trans (hi d hm) hc
        · rcases List.mem_cons.mp hm with rfl | hm
          · exact hc
          · exact hg d hm
      obtain ⟨rows', g', hyield, hjoined, hrows⟩ := ih hrest hlinks
      refine ⟨rows', g', ?_, hjoined, hrows⟩
      show (if c.binding.foldsBefore b.binding then _ else _) = _
      rw [Link.foldsBefore_eq_yieldsTo, if_pos hc, ← Infix.tree_join hi hd]
      exact hyield
    · refine ⟨(i, c) :: rows, g, ?_, rfl, hall, ?_, hg⟩
      · show (if c.binding.foldsBefore b.binding then _ else _) = _
        rw [Link.foldsBefore_eq_yieldsTo, if_neg hc]
        rfl
      · intro x hx
        cases hx
        exact hc

/-- An operator that the latest waiting one does not yield to may be read on. -/
theorem ordered_join {rows : Rows} {g : Infix Tree} {b : Link} {y : Tree} (h : rows.Ordered g)
    (hb : rows.Holds b) : rows.Ordered (g.join b (.single y)) := by
  induction rows generalizing g with
  | nil => trivial
  | cons x rows ih =>
    obtain ⟨i, c⟩ := x
    obtain ⟨hi, hg, hrest⟩ := h
    have hc : ¬ c.yieldsTo b = true := hb (i, c) rfl
    refine ⟨hi, ?_, ?_⟩
    · intro d hd
      rw [Infix.links_join] at hd
      rcases List.mem_append.mp hd with hd | hd
      · exact hg d hd
      · rw [List.mem_singleton.mp hd]
        exact hc
    · rw [← Infix.join_assoc]
      refine ih hrest ?_
      -- The operator before `c` does not yield to `c`, nor does `c` to the new one.
      cases rows with
      | nil =>
        intro z hz
        cases hz
      | cons z rows =>
        intro w hw
        cases hw
        obtain ⟨-, hlinks, -⟩ := hrest
        exact Link.not_yieldsTo_trans (hlinks c (by simp)) hc

end Rows

/-- What the rows are joined to may be joined before them. -/
theorem Rows.joined_join (rows : Rows) (g : Infix Tree) (b : Link) (j : Infix Tree) :
    rows.joined (g.join b j) = (rows.joined g).join b j := by
  induction rows generalizing g with
  | nil => rfl
  | cons x rows ih =>
    show Rows.joined rows (x.1.join x.2 (g.join b j)) = _
    rw [← Infix.join_assoc]
    exact ih (x.1.join x.2 g)

namespace Infix

/-- The last of some operands, or `x` where there are none. -/
def lastOf (x : Tree) (rest : List (Link × Tree)) : Tree :=
  (Infix.mk x rest).last

theorem lastOf_cons (x : Tree) (b : Link) (y : Tree) (rest : List (Link × Tree)) :
    lastOf x ((b, y) :: rest) = lastOf y rest :=
  last_join (single x) b ⟨y, rest⟩

/-- What waits when a row has been read on are the trees of rows in order. -/
theorem exists_rows_go (rows : Rows) {x : Tree} (rest : List (Link × Tree))
    (h : rows.Ordered (single x)) :
    ∃ rows' : Rows, stack.go x rest rows.trees = rows'.trees ∧
      rows'.Ordered (single (lastOf x rest)) ∧
      rows'.joined (single (lastOf x rest)) = rows.joined ⟨x, rest⟩ := by
  induction rest generalizing rows x with
  | nil => exact ⟨rows, rfl, h, rfl⟩
  | cons z rest ih =>
    obtain ⟨b, y⟩ := z
    obtain ⟨rows', g', hyield, hjoined, hrows, holds, hlinks⟩ :=
      Rows.yield_of_ordered (b := b) h (by simp)
    have hnext : Rows.Ordered ((g', b) :: rows') (single y) :=
      ⟨hlinks, by simp, Rows.ordered_join hrows holds⟩
    rw [tree_single] at hyield
    have hstep : stack.go x ((b, y) :: rest) rows.trees
        = stack.go y rest ((g'.tree, b) :: rows'.trees) := by
      rw [stack.go, hyield]
    have hall : rows'.joined (g'.join b ⟨y, rest⟩) = rows.joined ⟨x, (b, y) :: rest⟩ := by
      rw [Rows.joined_join, hjoined, ← Rows.joined_join]
      rfl
    rw [hstep, lastOf_cons, ← hall]
    exact ih ((g', b) :: rows') hnext

/-- What waits behind a row are the trees of rows in order, which come to the whole row. -/
theorem exists_rows (i : Infix Tree) : ∃ rows : Rows, i.stack = rows.trees ∧
    rows.Ordered (single i.last) ∧ rows.joined (single i.last) = i :=
  exists_rows_go [] i.rest trivial

/-- Read from left to right, a row comes to its tree. -/
theorem collapse_stack (i : Infix Tree) : Stack.collapse i.stack i.last = i.tree := by
  obtain ⟨rows, hstack, hordered, hjoined⟩ := i.exists_rows
  have hcollapse := Rows.collapse_of_ordered hordered
  rw [tree_single, ← hstack, hjoined] at hcollapse
  exact hcollapse

/-- The lowest operator that waits behind a row is the place to split it. -/
theorem lowest_of_stack {i : Infix Tree} {x : Tree} {b : Link} {st : Stack}
    (h : i.stack = (x, b) :: st) :
    ∃ before after, i.links = before ++ st.lowest b :: after ∧
      (∀ c ∈ before, c.yieldsTo (st.lowest b) = true) ∧
      ∀ d ∈ after, ¬ (st.lowest b).yieldsTo d = true := by
  obtain ⟨rows, hstack, hordered, hjoined⟩ := i.exists_rows
  rw [h] at hstack
  cases rows with
  | nil => cases hstack
  | cons y rows =>
    obtain ⟨j, c⟩ := y
    cases hstack
    have hlowest := Rows.lowest_of_ordered hordered
    rw [hjoined] at hlowest
    exact hlowest

/-- Reading one more operator and operand. -/
theorem stack_join_single (i : Infix Tree) (b : Link) (y : Tree) :
    (i.join b (single y)).stack = i.opened b := by
  suffices h : ∀ (x : Tree) (rest : List (Link × Tree)) (st : Stack),
      stack.go x (rest ++ [(b, y)]) st
        = ((Stack.yield b (stack.go x rest st) (lastOf x rest)).2, b)
          :: (Stack.yield b (stack.go x rest st) (lastOf x rest)).1 from h i.first i.rest []
  intro x rest
  induction rest generalizing x with
  | nil =>
    intro st
    rfl
  | cons z rest ih =>
    intro st
    rw [lastOf_cons]
    exact ih z.2 _

end Infix

end ExprYard
