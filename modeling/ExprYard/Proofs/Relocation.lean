import ExprYard.Diagnostic
import ExprYard.Proofs.Chains
import ExprYard.Sink

/-!
# The same tokens, trees and problems in another place

A relocation moves positions and spans, and respects where a span starts. Whatever carries a place
is moved by it, and nothing else about it changes: not its kind, its text, its shape or its flags.
-/

namespace ExprYard

/-- A move of positions and spans. -/
structure Relocation where
  position : Position → Position
  span : Span → Span
  first : ∀ s : Span, (span s).first = position s.first

/-- No place moves. -/
def Relocation.stay : Relocation where
  position p := p
  span s := s
  first _ := rfl

/-- All places move `n` runes further on. -/
def Relocation.forward (n : Nat) : Relocation where
  position p := ⟨p.offset + n, p.file⟩
  span s := ⟨s.start + n, s.stop + n, s.file⟩
  first _ := rfl

/-- Of all places is left what is kept of them. -/
def Relocation.narrow : Relocation where
  position := Position.narrow
  span := Span.narrow
  first _ := rfl

/-- All places become one. What is left tells nothing of where it stood. -/
def Relocation.nowhere : Relocation where
  position _ := ⟨0, ""⟩
  span _ := ⟨0, 0, ""⟩
  first _ := rfl

variable (r : Relocation)

def Token.relocate (t : Token) : Token :=
  { t with span := r.span t.span }

def Diagnostic.relocate (d : Diagnostic) : Diagnostic :=
  { d with position := r.position d.position }

namespace Tree

mutual

/-- All tokens of a tree are moved. -/
def relocate : Tree → Tree
  | .node t cs f => .node (t.relocate r) (relocateList cs) f

def relocateList : List Tree → List Tree
  | [] => []
  | t :: ts => t.relocate :: relocateList ts

end

theorem relocateList_eq_map (ts : List Tree) : relocateList r ts = ts.map (relocate r) := by
  induction ts with
  | nil => rfl
  | cons t ts ih => rw [relocateList, ih, List.map_cons]

theorem relocate_node (t : Token) (cs : List Tree) (f : Bool) :
    (Tree.node t cs f).relocate r = .node (t.relocate r) (cs.map (relocate r)) f := by
  rw [relocate, relocateList_eq_map]

theorem relocate_branch (t : Token) (cs : List Tree) :
    (Tree.branch t cs).relocate r = .branch (t.relocate r) (cs.map (relocate r)) :=
  relocate_node r t cs false

mutual

theorem relocate_stay : ∀ x : Tree, x.relocate .stay = x
  | .node t cs f => by
    rw [relocate, relocateList_stay cs]
    rfl

theorem relocateList_stay : ∀ xs : List Tree, relocateList .stay xs = xs
  | [] => rfl
  | x :: xs => by rw [relocateList, relocate_stay x, relocateList_stay xs]

end

theorem isSeparator_relocate (x : Tree) : (x.relocate r).isSeparator = x.isSeparator := by
  obtain ⟨t, cs, f⟩ := x
  rw [relocate_node]
  unfold isSeparator isComma
  simp only [token, children, tuple, List.length_map]
  rfl

/-- To close a tuple is a matter of kinds and flags. -/
theorem closeTuple_relocate (x : Tree) : (x.relocate r).closeTuple = x.closeTuple.relocate r := by
  induction x using chain_induct with
  | stop x hx =>
    rw [closeTuple_of_not_isSeparator hx, closeTuple_of_not_isSeparator]
    rw [isSeparator_relocate, hx]
  | link t a b ht ih =>
    have ht' : (t.relocate r).kind = .keyword .comma := ht
    rw [closeTuple_comma ht, relocate_node, relocate_node, List.map_cons, List.map_cons,
      List.map_nil, closeTuple_comma ht', ih]
    rfl

end Tree

/-- What a parser comes to is moved with the places in it. -/
def relocateResult : Except Diagnostic (List Tree) → Except Diagnostic (List Tree)
  | .ok trees => .ok (trees.map (Tree.relocate r))
  | .error d => .error (d.relocate r)

/-- What a source is taken apart into is moved with the places in it. -/
def relocateTokens : Except Diagnostic (List Token) → Except Diagnostic (List Token)
  | .ok ts => .ok (ts.map (Token.relocate r))
  | .error d => .error (d.relocate r)

/-- A sink that is told of tokens where they are moved to. -/
def Sink.relocating {σ : Type} (sink : Sink σ) : Sink σ where
  wants := sink.wants
  accept s t := sink.accept s (t.relocate r)

theorem Sink.feed_relocating {σ : Type} (sink : Sink σ) (s : σ) (ts : List Token) :
    (sink.relocating r).feed s ts = sink.feed s (ts.map (Token.relocate r)) := by
  induction ts generalizing s with
  | nil => rfl
  | cons t ts ih =>
    unfold feed
    rw [ih]
    rfl

theorem Token.relocate_stay (t : Token) : t.relocate .stay = t := rfl

theorem Diagnostic.relocate_stay (d : Diagnostic) : d.relocate .stay = d := rfl

theorem Token.position_relocate (t : Token) : (t.relocate r).position = r.position t.position :=
  r.first t.span

end ExprYard
