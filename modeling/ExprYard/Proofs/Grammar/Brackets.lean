import ExprYard.Proofs.Grammar.Following
import ExprYard.Proofs.Parser.Reports
import Mathlib.Algebra.GroupWithZero.Nat

/-!
# Two accounts of parentheses

A lexer counts the parentheses that are open, on its own for each call, and a parser has a marker
for each of them. The two agree at every step of a lexer, as long as the parser has taken what the
lexer has finished. And a parser that is given the tokens of a lexer refuses one of them for a
single reason: a parenthesis closes where an operator waits for an operand. No parenthesis closes
and no statement ends against what is open.
-/

namespace ExprYard

open ExprYard.Parser

/-! ## Markers -/

/-- Whether a marker is an open parenthesis. -/
def Marker.isParen : Marker → Bool
  | .paren .. => true
  | _ => false

/-- How many parentheses a parser has open. -/
def Parser.parens (p : Parser) : Nat :=
  p.pending.countP Marker.isParen

/-- Markers, the latest first, among which a call has its parenthesis right above it and a
declaration is at the bottom. -/
inductive Nested : List Marker → Prop where
  | nil : Nested []
  | letWord {word : Token} : Nested [.letWord word]
  | operator {t : Token} {b : Binding} {ms : List Marker} (rest : Nested ms) :
      Nested (.operator t b :: ms)
  | group {t : Token} {n : Nat} {ms : List Marker} (rest : Nested ms) : Nested (.paren t n :: ms)
  | call {t f : Token} {n : Nat} {ms : List Marker} (rest : Nested ms) :
      Nested (.paren t n :: .call f :: ms)

namespace Nested

/-- Above a call there is its parenthesis. -/
theorem above_call {ms above below : List Marker} {f : Token} (h : Nested ms)
    (heq : ms = above ++ .call f :: below) :
    ∃ rest t n, above = rest ++ [.paren t n] := by
  induction h generalizing above with
  | nil => cases above <;> cases heq
  | letWord =>
    cases above with
    | nil => cases heq
    | cons m above => cases above <;> cases heq
  | operator rest ih | group rest ih =>
    cases above with
    | nil => cases heq
    | cons m above =>
      obtain ⟨rest, t, n, rfl⟩ := ih (List.cons.inj heq).2
      exact ⟨m :: rest, t, n, rfl⟩
  | @call t g n ms rest ih =>
    cases above with
    | nil => cases heq
    | cons m above =>
      obtain ⟨rfl, hcall⟩ := List.cons.inj heq
      cases above with
      | nil => exact ⟨[], t, n, rfl⟩
      | cons m' above =>
        obtain ⟨rest, t', n', rfl⟩ := ih (List.cons.inj hcall).2
        exact ⟨.paren t n :: m' :: rest, t', n', rfl⟩

/-- Below a declaration there is nothing. -/
theorem below_letWord {ms above below : List Marker} {w : Token} (h : Nested ms)
    (heq : ms = above ++ .letWord w :: below) : below = [] := by
  induction h generalizing above with
  | nil => cases above <;> cases heq
  | letWord =>
    cases above with
    | nil => exact (List.cons.inj heq).2.symm
    | cons m above => cases above <;> cases heq
  | operator rest ih | group rest ih =>
    cases above with
    | nil => cases heq
    | cons m above => exact ih (List.cons.inj heq).2
  | call rest ih =>
    cases above with
    | nil => cases heq
    | cons m above =>
      cases above with
      | nil => cases (List.cons.inj heq).2
      | cons m above => exact ih (List.cons.inj (List.cons.inj heq).2).2

end Nested

/-- A parser whose markers are nested, with a number of parentheses open. -/
structure Brackets (p : Parser) (n : Nat) : Prop where
  nested : Nested p.pending
  parens : p.parens = n

namespace Brackets

variable {p : Parser} {n : Nat}

theorem prefixed (h : Brackets p n) (bs : List Token) : Brackets (p.prefixed bs) n := by
  induction bs with
  | nil => exact h
  | cons b bs ih => exact ⟨.operator ih.nested, ih.parens⟩

theorem stacked (h : Brackets p n) (st : Stack) : Brackets (p.stacked st) n := by
  induction st with
  | nil => exact h
  | cons x st ih => exact ⟨.operator ih.nested, ih.parens⟩

theorem waiting (h : Brackets p n) (st : Stack) (bs : List Token) :
    Brackets (p.waiting st bs) n :=
  (h.stacked st).prefixed bs

theorem row (h : Brackets p n) (i : Infix Tree) (o : Operand) : Brackets (p.row i o) n := by
  have hw := h.waiting i.stack o.bangs
  exact ⟨hw.nested, hw.parens⟩

theorem enter (h : Brackets p n) (s : Scope) : Brackets (p.enter s) (n + 1) := by
  have hw := h.waiting s.stack s.bangs
  have hparens := hw.parens
  unfold Parser.parens at hparens
  unfold Parser.enter
  cases s.call with
  | none =>
    refine ⟨.group hw.nested, ?_⟩
    show List.countP Marker.isParen (.paren _ _ :: (p.waiting s.stack s.bangs).pending) = _
    rw [List.countP_cons_of_pos rfl, hparens]
  | some f =>
    refine ⟨.call hw.nested, ?_⟩
    show List.countP Marker.isParen (.paren _ _ :: .call f :: (p.waiting s.stack s.bangs).pending)
      = _
    rw [List.countP_cons_of_pos rfl, List.countP_cons_of_neg Bool.false_ne_true, hparens]

theorem within (h : Brackets p n) : ∀ ss : List Scope, Brackets (p.within ss) (n + ss.length)
  | [] => h
  | s :: ss => (within h ss).enter s

theorem base (word : Option (Token.Is (.keyword .letWord))) (trees : List Tree) :
    Brackets (ExprYard.base word trees) 0 := by
  cases word with
  | none => exact ⟨.nil, rfl⟩
  | some w => exact ⟨.letWord, rfl⟩

end Brackets

theorem length_nestScopes {α : Type} (scope : Lead → α → Scope) (lead : Lead) (fs : List α) :
    (nestScopes scope lead fs).length = fs.length := by
  induction fs with
  | nil => rfl
  | cons f fs ih => exact congrArg Nat.succ ih

/-- Each open group and each open call is counted once. -/
theorem length_of_counts {fs : List Frame} {p : Nat} {os : List Nat} (h : counts fs = (p, os)) :
    fs.length = p + os.length + os.sum := by
  induction fs generalizing p os with
  | nil =>
    cases h
    rfl
  | cons f fs ih =>
    have hfs := ih (rfl : counts fs = ((counts fs).1, (counts fs).2))
    unfold counts at h
    cases hf : f.call with
    | none =>
      rw [hf] at h
      cases h
      rw [List.length_cons, hfs]
      omega
    | some name =>
      rw [hf] at h
      cases h
      rw [List.length_cons, hfs, List.length_cons, List.sum_cons]
      omega

/-- A parser that has taken the tokens of a draft has as many parentheses open as a lexer counts
that knows of it, and its markers are nested, but for the word `tuple` before its parenthesis. -/
theorem Draft.brackets {d : Draft} {c : Control} (h : Fits d.current c) :
    Brackets d.parser (c.parens + c.outer.length + c.outer.sum) ∨
      ∃ (w : Token.Is (.type .tuple)) (q : Parser), d.parser = q.await (.call w.1) ∧
        (∃ earlier, d.tokens = earlier ++ [w.1]) ∧
          Brackets q (c.parens + c.outer.length + c.outer.sum) := by
  obtain ⟨closed, current⟩ := d
  have hframes : ∀ (head : Option LetHead) (fs : List Frame),
      Brackets ((ExprYard.base (headWord head) closed.trees).within
        (nestScopes Frame.scope (headLead head) fs)) fs.length := by
    intro head fs
    have hb := (Brackets.base (headWord head) closed.trees).within
      (nestScopes Frame.scope (headLead head) fs)
    rw [length_nestScopes, Nat.zero_add] at hb
    exact hb
  have htypes : ∀ (w : Token.Is (.keyword .letWord)) (lead : Lead) (fs : List TypeFrame),
      Brackets ((ExprYard.base (some w) closed.trees).within
        (nestScopes TypeFrame.scope lead fs)) fs.length := by
    intro w lead fs
    have hb := (Brackets.base (some w) closed.trees).within (nestScopes TypeFrame.scope lead fs)
    rw [length_nestScopes, Nat.zero_add] at hb
    exact hb
  cases h with
  | initial hs => exact .inl ((hframes none []).waiting _ _)
  | gap hs hc rooted =>
    rw [← length_of_counts hc]
    exact .inl ((hframes _ _).waiting _ _)
  | list hs hc rooted =>
    rw [← length_of_counts hc]
    exact .inl ((hframes _ _).row _ _)
  | @word w => exact .inl (Brackets.base (some w) closed.trees)
  | @target w t => exact .inl ((Brackets.base (some w) closed.trees).row _ _)
  | typeGap hp rooted =>
    subst hp
    exact .inl ((htypes _ _ _).stacked _)
  | @typeWord w name colon fs g word p hp rooted =>
    subst hp
    refine .inr ⟨word, _, rfl, ⟨closed.tokens
      ++ w.1 :: name.1 :: colon.1 :: (nestTokens TypeFrame.tokens fs ++ g.tokens), ?_⟩,
      (htypes w _ fs).stacked _⟩
    simp [Draft.tokens, Current.tokens, TypePlace.tokens]
  | typeList hp rooted =>
    subst hp
    exact .inl ((htypes _ _ _).row _ _)

/-! ## Runs -/

open Lexer

/-- The markers of a parser that has taken some tokens, and the parentheses that a lexer has open
which has finished them. -/
structure Matches (p : Parser) (parens : Nat) (outer : List Nat) (ts : List Token) : Prop where
  /-- As many parentheses are open: those of the innermost call, the calls, and those outside. -/
  parens : p.parens = parens + outer.length + outer.sum
  /-- A call has its parenthesis above it. The word `tuple` waits for it when it is the last token
  but for the report of a problem. -/
  calls : ∀ above f below, p.pending = above ++ .call f :: below →
    (∃ rest t n, above = rest ++ [.paren t n]) ∨
    above = [] ∧ f.kind = .type .tuple ∧
      ∃ earlier late, ts = earlier ++ f :: late ∧ ∀ t ∈ late, t.kind = .error
  /-- A declaration is at the bottom. -/
  letWord : ∀ above w below, p.pending = above ++ .letWord w :: below → below = []

/-- Markers are matched by what is open when nested, but for the word `tuple`. -/
theorem Draft.matches {d : Draft} {c : Control} (h : Fits d.current c) :
    Matches d.parser c.parens c.outer d.tokens := by
  rcases Draft.brackets h with hb | ⟨w, q, hq, ⟨earlier, hearlier⟩, hb⟩
  · exact ⟨hb.parens, fun above f below heq => .inl (hb.nested.above_call heq),
      fun above w below heq => hb.nested.below_letWord heq⟩
  · rw [hq]
    refine ⟨?_, ?_, ?_⟩
    · show List.countP Marker.isParen (.call w.1 :: q.pending) = _
      rw [List.countP_cons_of_neg Bool.false_ne_true]
      exact hb.parens
    · intro above f below heq
      cases above with
      | nil =>
        cases (List.cons.inj heq).1
        exact .inr ⟨rfl, w.2, earlier, [], hearlier, List.forall_mem_nil _⟩
      | cons m above =>
        obtain ⟨rest, t, n, rfl⟩ := hb.nested.above_call (List.cons.inj heq).2
        exact .inl ⟨m :: rest, t, n, rfl⟩
    · intro above w' below heq
      cases above with
      | nil => cases (List.cons.inj heq).1
      | cons m above => exact hb.nested.below_letWord (List.cons.inj heq).2

/-- A parser takes the report of a lexer, and its markers are as before. -/
theorem takes_late {late : List Token} (h : late = [] ∨ ∃ d, late = [Lexer.report d]) (p : Parser) :
    ∃ q, Takes late p q ∧ q.pending = p.pending := by
  rcases h with rfl | ⟨d, rfl⟩
  · exact ⟨p, rfl, rfl⟩
  · exact ⟨_, takes_single (push_error rfl p), rfl⟩

/-- The report of a lexer changes nothing about what is open. -/
theorem Matches.late {p q : Parser} {n : Nat} {os : List Nat} {ts late : List Token}
    (h : Matches p n os ts) (hq : q.pending = p.pending)
    (hlate : late = [] ∨ ∃ d, late = [Lexer.report d]) : Matches q n os (ts ++ late) := by
  have herror : ∀ t ∈ late, t.kind = .error := by
    intro t ht
    rcases hlate with rfl | ⟨d, rfl⟩
    · cases ht
    · rw [List.mem_singleton.mp ht]
      rfl
  have hparens : q.parens = p.parens := congrArg (List.countP Marker.isParen) hq
  refine ⟨hparens.trans h.parens, ?_, fun above w below heq => h.letWord _ w _ (hq ▸ heq)⟩
  intro above f below heq
  rcases h.calls above f below (hq ▸ heq) with hcall | ⟨habove, hf, earlier, rest, rfl, hrest⟩
  · exact .inl hcall
  · refine .inr ⟨habove, hf, earlier, rest ++ late, by simp, ?_⟩
    intro t ht
    exact (List.mem_append.mp ht).elim (hrest t) (herror t)

/-- The two accounts of the tokens that a lexer has finished: its own, and that of a parser. -/
structure Accord (l : Lexer) : Prop where
  /-- A parser that takes all of the tokens has the same parentheses open as the lexer. -/
  taken : ∀ p, pushAll l.queue Parser.empty = (p, l.queue.length, none) →
    Matches p l.parens l.outer l.queue
  /-- The first token that a parser refuses, if there is one, is a closing parenthesis, and what it
  misses is an operand. -/
  refused : ∀ pre t post p q d, l.queue = pre ++ t :: post →
    pushAll pre Parser.empty = (p, pre.length, none) → p.push t = (q, some d) →
    t.kind = .closeParen ∧ ∃ text, d.problem = .missingOperand text

section Accord

variable {l : Lexer} {d : Draft} {late : List Token}

/-- Where the tokens are those of a draft, none of them is refused. -/
theorem accord_of_fits {state : State} (fits : Fits d.current ⟨state, l.parens, l.outer⟩)
    (queue : l.queue = d.tokens ++ late) (hlate : late = [] ∨ ∃ d, late = [Lexer.report d])
    (uncomma : Uncomma d.tokens) : Accord l := by
  obtain ⟨p', hp', hpending⟩ := takes_late hlate d.parser
  have hall := Takes.append (d.takes uncomma) hp'
  rw [← queue] at hall
  refine ⟨?_, ?_⟩
  · intro p hp
    rw [(takes_iff_pushAll.mpr hp).unique hall, queue]
    exact (Draft.matches fits).late hpending hlate
  · intro pre t post p q failure hpre htakes hpush
    have hrefused := pushAll_of_refused (takes_iff_pushAll.mpr htakes) hpush post
    rw [← hpre, takes_iff_pushAll.mp hall] at hrefused
    cases (Prod.mk.inj (Prod.mk.inj hrefused).2).2

/-- Where a token comes amiss, it is the first that is refused. -/
theorem accord_of_amiss {t : Token} {post : List Token} (amiss : d.Amiss t)
    (queue : l.queue = d.tokens ++ t :: post) (uncomma : Uncomma d.tokens) : Accord l := by
  obtain ⟨r, u, -, hr⟩ := amiss.push
  have hfirst := pushAll_of_refused (d.takes uncomma) hr post
  rw [← queue] at hfirst
  refine ⟨?_, ?_⟩
  · intro p hp
    rw [hp] at hfirst
    cases (Prod.mk.inj (Prod.mk.inj hfirst).2).2
  · intro pre t' post' p q failure hpre htakes hpush
    have hrefused := pushAll_of_refused (takes_iff_pushAll.mpr htakes) hpush post'
    rw [← hpre, hfirst] at hrefused
    -- There is only one first token that is refused.
    obtain ⟨-, hcount, hfailure⟩ := Prod.mk.inj hrefused |>.imp_right Prod.mk.inj
    obtain ⟨-, hrest⟩ := List.append_inj (queue.symm.trans hpre) hcount
    cases (List.cons.inj hrest).1
    cases hfailure
    cases amiss with
    | closing hg ht => exact ⟨ht, u.text, rfl⟩

end Accord

/-- At every step of a lexer, a parser that has taken all of its tokens has as many parentheses open
as the lexer counts; its markers are nested, but that the word `tuple` may wait for its parenthesis.
And the first token that a parser refuses, if there is one, is a closing parenthesis that comes
where an operator lacks its operand. -/
theorem brackets_agree (source : List Char) (file : String) (n : Nat) :
    Accord (Lexer.step^[n] (Lexer.ofRunes source file)) := by
  obtain ⟨ts, late, state, hqueue, hlate, turns⟩ := turns_iterate source file n
  generalize step^[n] (ofRunes source file) = l at hqueue turns
  have huncomma := turns.uncomma
  cases Draft.followed turns with
  | fits d fits tokens =>
    subst tokens
    exact accord_of_fits fits hqueue hlate huncomma
  | amiss d t post amiss tokens =>
    subst tokens
    have hsplit : l.queue = d.tokens ++ t :: (post ++ late) := by
      rw [hqueue, List.append_assoc]
      rfl
    exact accord_of_amiss amiss hsplit (uncomma_append.mp huncomma).1

end ExprYard
