import ExprYard.Proofs.Grammar.Lists

/-!
# Tokens between parentheses

A list is cut at its own commas: those that are in no parentheses of their own. `pieces` does that
for any tokens, by counting the parentheses that are open. Whatever the grammar puts between two
commas is `Whole`: its parentheses match each other, and none of its commas is one to cut at. So
the pieces of a list are its elements (`Listed.pieces_eq`).
-/

namespace ExprYard

/-! ## Counting parentheses -/

/-- How many parentheses are open behind a token, when `depth` are open before it. -/
def Token.level (t : Token) (depth : Nat) : Nat :=
  if t.kind = .openParen then depth + 1 else if t.kind = .closeParen then depth - 1 else depth

/-- Whether each parenthesis that opens is closed behind, and the other way about, when `depth` are
open already. -/
def Matched : Nat → List Token → Prop
  | depth, [] => depth = 0
  | depth, t :: ts => (t.kind = .closeParen → depth ≠ 0) ∧ Matched (t.level depth) ts

/-- The stretches of tokens between the commas that are in no parentheses, when `depth` of these are
open already. -/
def pieces : Nat → List Token → List (List Token)
  | _, [] => [[]]
  | depth, t :: ts =>
    if depth = 0 ∧ t.kind = .keyword .comma then [] :: pieces 0 ts
    else (pieces (t.level depth) ts).modifyHead (t :: ·)

/-- How many commas are in no parentheses, when `depth` of these are open already. -/
def commas : Nat → List Token → Nat
  | _, [] => 0
  | depth, t :: ts =>
    commas (t.level depth) ts + if depth = 0 ∧ t.kind = .keyword .comma then 1 else 0

section

variable {depth : Nat} {t : Token} {ts : List Token}

theorem Token.level_open (h : t.kind = .openParen) : t.level depth = depth + 1 := by
  unfold Token.level
  rw [if_pos h]

theorem Token.level_close (h : t.kind = .closeParen) : t.level (depth + 1) = depth := by
  unfold Token.level
  rw [h]
  rfl

theorem Token.level_other (hopen : t.kind ≠ .openParen) (hclose : t.kind ≠ .closeParen) :
    t.level depth = depth := by
  unfold Token.level
  rw [if_neg hopen, if_neg hclose]

theorem pieces_comma (h : t.kind = .keyword .comma) : pieces 0 (t :: ts) = [] :: pieces 0 ts := by
  rw [pieces, if_pos ⟨rfl, h⟩]

theorem pieces_cons (h : ¬ (depth = 0 ∧ t.kind = .keyword .comma)) :
    pieces depth (t :: ts) = (pieces (t.level depth) ts).modifyHead (t :: ·) := by
  rw [pieces, if_neg h]

/-- There is one piece more than there are commas to cut at. -/
theorem length_pieces (depth : Nat) (ts : List Token) :
    (pieces depth ts).length = commas depth ts + 1 := by
  induction ts generalizing depth with
  | nil => rfl
  | cons t ts ih =>
    unfold commas
    by_cases h : depth = 0 ∧ t.kind = .keyword .comma
    · obtain ⟨rfl, hk⟩ := h
      have hopen : t.kind ≠ .openParen := by rw [hk]; decide
      have hclose : t.kind ≠ .closeParen := by rw [hk]; decide
      rw [pieces_comma hk, Token.level_other hopen hclose, List.length_cons, ih 0,
        if_pos ⟨rfl, hk⟩]
    · rw [pieces_cons h, List.length_modifyHead, ih, if_neg h]

end

/-! ## Stretches that are not cut -/

/-- Tokens whose parentheses match each other, and that are cut nowhere, when `depth` parentheses
are open before them. -/
structure Whole (depth : Nat) (ts : List Token) : Prop where
  matched : ∀ us, Matched depth (ts ++ us) ↔ Matched depth us
  uncut : ∀ us, pieces depth (ts ++ us) = (pieces depth us).modifyHead (ts ++ ·)

namespace Whole

variable {depth : Nat} {t opening closing : Token} {ts us : List Token}

theorem nil (depth : Nat) : Whole depth [] where
  matched := fun us => Iff.rfl
  uncut := fun us => by
    show pieces depth us = (pieces depth us).modifyHead id
    rw [List.modifyHead_id]
    rfl

theorem append (h : Whole depth ts) (g : Whole depth us) : Whole depth (ts ++ us) where
  matched := fun vs => by rw [List.append_assoc, h.matched, g.matched]
  uncut := fun vs => by
    rw [List.append_assoc, h.uncut, g.uncut, List.modifyHead_modifyHead]
    simp only [Function.comp_def, List.append_assoc]

/-- A token that is no parenthesis, and no comma to cut at. -/
theorem single (hopen : t.kind ≠ .openParen) (hclose : t.kind ≠ .closeParen)
    (hcomma : depth = 0 → t.kind ≠ .keyword .comma) : Whole depth [t] where
  matched := fun us => by
    show ((t.kind = .closeParen → depth ≠ 0) ∧ Matched (t.level depth) us) ↔ Matched depth us
    rw [Token.level_other hopen hclose]
    exact and_iff_right fun h => (hclose h).elim
  uncut := fun us => by
    show pieces depth (t :: us) = _
    rw [pieces_cons fun h => hcomma h.1 h.2, Token.level_other hopen hclose]
    rfl

theorem cons (h : Whole depth [t]) (g : Whole depth ts) : Whole depth (t :: ts) :=
  h.append g

/-- Tokens in parentheses. -/
theorem parens (hopening : opening.kind = .openParen) (hclosing : closing.kind = .closeParen)
    (h : Whole (depth + 1) ts) : Whole depth (opening :: (ts ++ [closing])) where
  matched := fun us => by
    have hnot : opening.kind ≠ .closeParen := by rw [hopening]; decide
    show ((opening.kind = .closeParen → depth ≠ 0) ∧
      Matched (opening.level depth) ((ts ++ [closing]) ++ us)) ↔ Matched depth us
    rw [Token.level_open hopening, List.append_assoc, h.matched]
    show (_ ∧ (_ ∧ Matched (closing.level (depth + 1)) us)) ↔ _
    rw [Token.level_close hclosing]
    exact ⟨fun hm => hm.2.2, fun hm => ⟨fun hk => (hnot hk).elim, fun _ => Nat.succ_ne_zero _, hm⟩⟩
  uncut := fun us => by
    have hopen : opening.kind ≠ .keyword .comma := by rw [hopening]; decide
    show pieces depth (opening :: ((ts ++ [closing]) ++ us)) = _
    rw [pieces_cons fun hk => hopen hk.2, Token.level_open hopening, List.append_assoc, h.uncut]
    show ((pieces (depth + 1) (closing :: us)).modifyHead _).modifyHead _ = _
    rw [pieces_cons fun hk => Nat.succ_ne_zero _ hk.1, Token.level_close hclosing,
      List.modifyHead_modifyHead, List.modifyHead_modifyHead]
    simp only [Function.comp_def, List.cons_append, List.append_assoc, List.nil_append]

/-- In a stretch by itself the parentheses match each other. -/
theorem toMatched (h : Whole 0 ts) : Matched 0 ts := by
  have hmatched := h.matched []
  rw [List.append_nil] at hmatched
  exact hmatched.mpr rfl

end Whole

/-! ## Lists -/

/-- Stretches with commas between them. -/
inductive Listed : List (List Token) → List Token → Prop where
  | one {ts : List Token} (h : Whole 0 ts) : Listed [ts] ts
  | more {items : List (List Token)} {ts us : List Token} {comma : Token} (l : Listed items ts)
      (hk : comma.kind = .keyword .comma) (h : Whole 0 us) :
      Listed (items ++ [us]) (ts ++ comma :: us)

namespace Listed

variable {items : List (List Token)} {ts us : List Token} {comma : Token}

/-- A list is cut at the comma behind it. -/
theorem pieces_append (l : Listed items ts) (hk : comma.kind = .keyword .comma)
    (us : List Token) : pieces 0 (ts ++ comma :: us) = items ++ pieces 0 us := by
  induction l generalizing comma us with
  | one h =>
    rw [h.uncut, pieces_comma hk]
    simp
  | more l hk' h ih =>
    rw [List.append_assoc, List.cons_append, ih hk', h.uncut, pieces_comma hk]
    simp

/-- The pieces of a list are what it lists. -/
theorem pieces_eq (l : Listed items ts) : pieces 0 ts = items := by
  cases l with
  | one h =>
    have huncut := h.uncut []
    rw [List.append_nil] at huncut
    rw [huncut]
    simp [pieces]
  | more l hk h =>
    have huncut := h.uncut []
    rw [List.append_nil] at huncut
    rw [l.pieces_append hk, huncut]
    simp [pieces]

/-- The parentheses of a list match each other. -/
theorem matched_append (l : Listed items ts) (us : List Token) :
    Matched 0 (ts ++ us) ↔ Matched 0 us := by
  induction l generalizing us with
  | one h => exact h.matched us
  | @more _ _ vs comma l hk h ih =>
    have hopen : comma.kind ≠ .openParen := by rw [hk]; decide
    have hclose : comma.kind ≠ .closeParen := by rw [hk]; decide
    rw [List.append_assoc, ih]
    show ((comma.kind = .closeParen → 0 ≠ 0) ∧ Matched (comma.level 0) (vs ++ us)) ↔ _
    rw [Token.level_other hopen hclose, h.matched]
    exact and_iff_right fun hc => (hclose hc).elim

theorem matched (l : Listed items ts) : Matched 0 ts := by
  have hmatched := l.matched_append []
  rw [List.append_nil] at hmatched
  exact hmatched.mpr rfl

end Listed

/-! ## The grammar -/

section

variable {depth : Nat} {kind : Kind} (t : Token.Is kind)

/-- A token of a given kind that is no parenthesis, and no comma to cut at. -/
theorem Token.Is.whole (hopen : kind ≠ .openParen) (hclose : kind ≠ .closeParen)
    (hcomma : depth = 0 → kind ≠ .keyword .comma) : Whole depth [t.1] :=
  .single (t.ne hopen) (t.ne hclose) fun h => t.ne (hcomma h)

end

mutual

theorem Unary.whole : ∀ (u : Unary) (depth : Nat), Whole depth u.tokens
  | .bang b u, depth =>
    (b.whole (by decide) (by decide) fun _ => by decide).cons (u.whole depth)
  | .value t, depth =>
    .single (t.2.ne (by decide)) (t.2.ne (by decide)) fun _ => t.2.ne (by decide)
  | .group opening c closing, depth => .parens opening.2 closing.2 (c.whole depth)
  | .call f opening c closing, depth =>
    (f.whole (by decide) (by decide) fun _ => by decide).cons
      (.parens opening.2 closing.2 (c.whole depth))

theorem Contents.whole : ∀ (c : Contents) (depth : Nat), Whole (depth + 1) c.tokens
  | .empty, depth => .nil (depth + 1)
  | .list l, depth => l.whole depth

theorem Exprs.whole : ∀ (l : Exprs) (depth : Nat), Whole (depth + 1) l.tokens
  | .one e, depth => e.whole (depth + 1)
  | .more l comma e, depth =>
    (l.whole depth).append ((comma.whole (by decide) (by decide)
      fun h => (Nat.succ_ne_zero _ h).elim).cons (e.whole (depth + 1)))

theorem Expr.whole : ∀ (e : Expr) (depth : Nat), Whole depth e.tokens
  | .unary u, depth => u.whole depth
  | .binary e op u, depth => by
    have hop : Whole depth [op.token] := by
      refine .single ?_ ?_ fun _ => ?_ <;>
      · rw [op.kind]
        exact fun hk => by cases hk
    exact (e.whole depth).append (hop.cons (u.whole depth))

end

mutual

theorem Ty.whole : ∀ (t : Ty) (depth : Nat), Whole depth t.tokens
  | .scalar t, depth => by
    obtain ⟨word, hk, -⟩ := t.2
    refine .single ?_ ?_ fun _ => ?_ <;>
    · rw [hk]
      exact fun hk => by cases hk
  | .tuple word opening l closing, depth =>
    (word.whole (by decide) (by decide) fun _ => by decide).cons
      (.parens opening.2 closing.2 (l.whole depth))

theorem Tys.whole : ∀ (l : Tys) (depth : Nat), Whole (depth + 1) l.tokens
  | .one t, depth => t.whole (depth + 1)
  | .more l comma t, depth =>
    (l.whole depth).append ((comma.whole (by decide) (by decide)
      fun h => (Nat.succ_ne_zero _ h).elim).cons (t.whole (depth + 1)))

end

/-- The expressions of a list. -/
def Exprs.items : Exprs → List Expr
  | .one e => [e]
  | .more l _ e => l.items ++ [e]

/-- The types of a list. -/
def Tys.items : Tys → List Ty
  | .one t => [t]
  | .more l _ t => l.items ++ [t]

theorem Exprs.listed (l : Exprs) : Listed (l.items.map Expr.tokens) l.tokens := by
  cases l with
  | one e => exact .one (e.whole 0)
  | more l comma e =>
    unfold Exprs.items
    rw [List.map_append]
    exact .more l.listed comma.2 (e.whole 0)

theorem Tys.listed (l : Tys) : Listed (l.items.map Ty.tokens) l.tokens := by
  cases l with
  | one t => exact .one (t.whole 0)
  | more l comma t =>
    unfold Tys.items
    rw [List.map_append]
    exact .more l.listed comma.2 (t.whole 0)

end ExprYard
