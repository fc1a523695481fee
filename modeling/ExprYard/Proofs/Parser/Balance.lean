import ExprYard.Proofs.Grammar.Arguments
import ExprYard.Proofs.Grammar.Brackets
import ExprYard.Proofs.Parser.Feeding
import ExprYard.Proofs.Parser.Requests

/-!
# Balanced parentheses

Whatever tokens a parser is given, it counts their parentheses right: the open ones among its
markers are as many as are open among the tokens since the last semicolon, and no token that would
put them out of balance is taken (`parens_of_push`). So tokens that are accepted are balanced
between any two semicolons.

The other way about, balance alone is not enough, since a call or a declaration in the wrong place
gets between a parenthesis and its counterpart. Where each call has its parenthesis right behind it
and no declaration begins in parentheses, the markers stay `Sheltered`, and then no parenthesis that
is in balance is ever refused (`Sheltered.push`, `Sheltered.drain`).
-/

namespace ExprYard

open ExprYard.Parser

/-! ## Balance -/

/-- How many parentheses open among tokens. -/
def opens (ts : List Token) : Nat :=
  ts.countP (·.kind = .openParen)

/-- How many parentheses close among tokens. -/
def closes (ts : List Token) : Nat :=
  ts.countP (·.kind = .closeParen)

/-- Tokens whose parentheses are balanced. -/
structure Balanced (ts : List Token) : Prop where
  /-- At no point have more closed than opened. -/
  sane : ∀ pre, pre <+: ts → closes pre ≤ opens pre
  /-- In the end as many have closed as opened. -/
  settled : closes ts = opens ts

/-- The stretches of tokens between semicolons. -/
def segments (ts : List Token) : List (List Token) :=
  ts.splitOnP (·.kind = .keyword .semicolon)

/-- Whether parentheses are balanced up to each semicolon and up to the end, when `depth` are open
already. -/
def Balances : Nat → List Token → Prop
  | depth, [] => depth = 0
  | depth, t :: ts => (t.kind = .closeParen → depth ≠ 0) ∧
      (t.kind = .keyword .semicolon → depth = 0) ∧ Balances (t.level depth) ts

section

variable {t : Token} {ts : List Token} {depth : Nat}

theorem closes_cons (t : Token) (ts : List Token) : closes (t :: ts) = closes [t] + closes ts := by
  show closes ([t] ++ ts) = _
  exact List.countP_append

/-- A token counts for what is open behind it. -/
theorem level_eq (h : t.kind = .closeParen → depth ≠ 0) (pre : List Token) :
    t.level depth + opens pre + closes [t] = depth + opens (t :: pre) := by
  unfold opens closes
  by_cases hopen : t.kind = .openParen
  · simp [Token.level_open hopen, hopen]
    omega
  · by_cases hclose : t.kind = .closeParen
    · obtain ⟨n, rfl⟩ := Nat.exists_eq_succ_of_ne_zero (h hclose)
      simp [Token.level_close hclose, hclose]
      omega
    · simp [Token.level_other hopen hclose, hopen, hclose]

/-- Parentheses match when at no point more have closed than are open, and all have in the end. -/
theorem matched_iff : Matched depth ts ↔
    (∀ pre, pre <+: ts → closes pre ≤ depth + opens pre) ∧ closes ts = depth + opens ts := by
  induction ts generalizing depth with
  | nil =>
    unfold Matched
    constructor
    · rintro rfl
      refine ⟨fun pre hpre => ?_, rfl⟩
      rw [List.prefix_nil.mp hpre]
      exact Nat.le_refl 0
    · rintro ⟨-, hall⟩
      exact hall.symm
  | cons t ts ih =>
    unfold Matched
    rw [ih]
    constructor
    · rintro ⟨hclose, hpre, hall⟩
      have hlevel := level_eq hclose
      refine ⟨fun pre h => ?_, ?_⟩
      · rcases List.prefix_cons_iff.mp h with rfl | ⟨rest, rfl, hrest⟩
        · exact Nat.zero_le _
        · have hle := hpre rest hrest
          have heq := hlevel rest
          rw [closes_cons]
          omega
      · have heq := hlevel ts
        rw [closes_cons]
        omega
    · rintro ⟨hpre, hall⟩
      have hclose : t.kind = .closeParen → depth ≠ 0 := by
        rintro hk rfl
        have hle := hpre [t] ⟨ts, rfl⟩
        simp [closes, opens, hk] at hle
      have hlevel := level_eq hclose
      refine ⟨hclose, fun pre h => ?_, ?_⟩
      · have hle := hpre (t :: pre) (List.cons_prefix_cons.mpr ⟨rfl, h⟩)
        have heq := hlevel pre
        rw [closes_cons] at hle
        omega
      · have heq := hlevel ts
        rw [closes_cons] at hall
        omega

theorem balanced_iff_matched : Balanced ts ↔ Matched 0 ts := by
  rw [matched_iff]
  simp only [Nat.zero_add]
  exact ⟨fun h => ⟨h.sane, h.settled⟩, fun h => ⟨h.1, h.2⟩⟩

/-- Parentheses are balanced up to each semicolon when those of each segment match. -/
theorem balances_iff_segments : Balances depth ts ↔
    ∃ s rest, segments ts = s :: rest ∧ Matched depth s ∧ ∀ u ∈ rest, Matched 0 u := by
  induction ts generalizing depth with
  | nil =>
    constructor
    · rintro rfl
      exact ⟨[], [], rfl, rfl, List.forall_mem_nil _⟩
    · rintro ⟨s, rest, hs, hm, -⟩
      cases hs
      exact hm
  | cons t ts ih =>
    unfold Balances segments
    rw [List.splitOnP_cons_eq_if_modifyHead, ih]
    unfold segments
    by_cases hk : t.kind = .keyword .semicolon
    · have hlevel : t.level depth = depth :=
        Token.level_other (by rw [hk]; decide) (by rw [hk]; decide)
      have hclose : t.kind ≠ .closeParen := by rw [hk]; decide
      rw [if_pos (decide_eq_true hk), hlevel]
      constructor
      · rintro ⟨-, hzero, s, rest, hs, hm, hrest⟩
        cases hzero hk
        exact ⟨[], _, rfl, rfl, hs ▸ List.forall_mem_cons.mpr ⟨hm, hrest⟩⟩
      · rintro ⟨s, rest, hs, hm, hrest⟩
        cases hs
        cases hm
        refine ⟨fun h => (hclose h).elim, fun _ => rfl, ?_⟩
        cases hsplit : ts.splitOnP (·.kind = .keyword .semicolon) with
        | nil => exact (List.splitOnP_ne_nil _ _ hsplit).elim
        | cons u us =>
          rw [hsplit] at hrest
          exact ⟨u, us, rfl, List.forall_mem_cons.mp hrest⟩
    · rw [if_neg (by simpa using hk)]
      constructor
      · rintro ⟨hclose, -, s, rest, hs, hm, hrest⟩
        exact ⟨t :: s, rest, by rw [hs]; rfl, ⟨hclose, hm⟩, hrest⟩
      · rintro ⟨s, rest, hs, hm, hrest⟩
        cases hsplit : ts.splitOnP (·.kind = .keyword .semicolon) with
        | nil => exact (List.splitOnP_ne_nil _ _ hsplit).elim
        | cons u us =>
          rw [hsplit] at hs
          cases hs
          exact ⟨hm.1, fun h => (hk h).elim, u, rest, rfl, hm.2, hrest⟩

theorem balances_iff : Balances 0 ts ↔ ∀ s ∈ segments ts, Balanced s := by
  simp only [balanced_iff_matched]
  rw [balances_iff_segments]
  constructor
  · rintro ⟨s, rest, hs, hm, hrest⟩
    rw [hs]
    exact List.forall_mem_cons.mpr ⟨hm, hrest⟩
  · intro h
    obtain ⟨s, rest, hs⟩ := List.exists_cons_of_ne_nil (List.splitOnP_ne_nil
      (fun t : Token => decide (t.kind = .keyword .semicolon)) ts)
    have hs' : segments ts = s :: rest := hs
    rw [hs'] at h
    exact ⟨s, rest, hs', List.forall_mem_cons.mp h⟩

end

instance instDecidableMatched : ∀ (depth : Nat) (ts : List Token), Decidable (Matched depth ts)
  | depth, [] => inferInstanceAs (Decidable (depth = 0))
  | depth, t :: ts =>
    have := instDecidableMatched (t.level depth) ts
    inferInstanceAs (Decidable ((t.kind = .closeParen → depth ≠ 0) ∧ Matched (t.level depth) ts))

instance (ts : List Token) : Decidable (Balanced ts) :=
  decidable_of_iff _ balanced_iff_matched.symm

instance (kind : Kind) : Decidable kind.IsCall :=
  inferInstanceAs (Decidable (_ ∨ _))

/-! ## What a parser counts -/

/-- How a token counts that is taken where `depth` parentheses are open. -/
structure Counted (t : Token) (depth depth' : Nat) : Prop where
  close : t.kind = .closeParen → depth ≠ 0
  semicolon : t.kind = .keyword .semicolon → depth = 0
  level : depth' = t.level depth

namespace Parser

variable {t : Token} {ts : List Token} {p q : Parser} {o : Outcome}

/-- A token that is no parenthesis and ends no statement is not counted. -/
theorem counted_other {n : Nat} (hopen : t.kind ≠ .openParen) (hclose : t.kind ≠ .closeParen)
    (hsemicolon : t.kind ≠ .keyword .semicolon) : Counted t n n where
  close := fun h => (hclose h).elim
  semicolon := fun h => (hsemicolon h).elim
  level := (Token.level_other hopen hclose).symm

theorem parens_of_nil (h : p.pending = []) : p.parens = 0 := by
  unfold Parser.parens
  rw [h]
  rfl

theorem parens_of_pending {m : Marker} {ms : List Marker} (h : p.pending = m :: ms)
    (hm : m.isParen = false) : p.parens = ms.countP Marker.isParen := by
  unfold Parser.parens
  rw [h, List.countP_cons_of_neg (by rw [hm]; exact Bool.false_ne_true)]

theorem parens_of_paren {opening : Token} {n : Nat} {ms : List Marker}
    (h : p.pending = .paren opening n :: ms) : p.parens = ms.countP Marker.isParen + 1 := by
  unfold Parser.parens
  rw [h, List.countP_cons_of_pos rfl]

theorem Reduces.parens (h : Reduces p q) : q.parens = p.parens := by
  cases h with
  | @fold m ms xs rest pending folded =>
    refine (parens_of_pending pending ?_).symm
    cases m with
    | operator | letWord => rfl
    | paren | call => cases folded

/-- A closing parenthesis takes one from those that are open. -/
theorem counted_close {opening : Token} {n : Nat} {ms : List Marker} (kind : t.kind = .closeParen)
    (h : p.pending = .paren opening n :: ms) : Counted t p.parens (ms.countP Marker.isParen) where
  close := fun _ => by
    rw [parens_of_paren h]
    exact Nat.succ_ne_zero _
  semicolon := by
    rw [kind]
    exact nofun
  level := by rw [parens_of_paren h, Token.level_close kind]

theorem Awaits.counted {m : Marker} (h : Awaits t p m) : Counted t p.parens (p.await m).parens := by
  have hother : m.isParen = false → (p.await m).parens = p.parens := fun hm =>
    parens_of_pending (p := p.await m) rfl hm
  cases h with
  | call kind =>
    rw [hother rfl]
    rcases kind with kind | kind <;> refine counted_other ?_ ?_ ?_ <;> rw [kind] <;> exact nofun
  | paren kind =>
    refine ⟨?_, ?_, ?_⟩
    · rw [kind]
      exact nofun
    · rw [kind]
      exact nofun
    · rw [Token.level_open kind]
      exact parens_of_paren (p := p.await _) rfl
  | letWord kind =>
    rw [hother rfl]
    refine counted_other ?_ ?_ ?_ <;> rw [kind] <;> exact nofun
  | operator bound =>
    rw [hother rfl]
    refine counted_other ?_ ?_ ?_ <;> intro hk <;> rw [hk] at bound <;> cases bound

theorem Arrives.counted (h : Arrives t p o) (ho : o.2 = none) : Counted t p.parens o.1.parens := by
  cases h with
  | unread kind | lexical kind | refused kind =>
    refine counted_other ?_ ?_ ?_ <;> rw [kind] <;> exact nofun
  | operand kind =>
    refine counted_other ?_ ?_ ?_ <;> intro hk <;> rw [hk] at kind <;> cases kind
  | marker h => exact h.counted
  | value kind pending => exact counted_close kind pending
  | @argument opening f n ms x xs kind pending =>
    have hcounted := counted_close kind pending
    rw [List.countP_cons_of_neg Bool.false_ne_true] at hcounted
    exact hcounted
  | unreached | unopened => cases ho
  | semicolon kind h =>
    cases h with
    | done pending =>
      refine ⟨by rw [kind]; exact nofun, fun _ => parens_of_nil pending, ?_⟩
      exact (Token.level_other (by rw [kind]; exact nofun) (by rw [kind]; exact nofun)).symm
    | unclosed => cases ho

/-- A parser has as many parentheses open as a token that it takes leaves open, and it takes none
that would put them out of balance. -/
theorem parens_of_push (h : p.push t = (q, none)) : Counted t p.parens q.parens := by
  have hwalk := push_walks t p
  rw [h] at hwalk
  obtain ⟨r, hr, hend⟩ := hwalk.exists_end (I := fun r => r.parens = p.parens) rfl
    (fun hreduces hr => hreduces.parens.trans hr) rfl
  rw [← hr]
  exact hend.counted rfl

/-- Tokens that a parser takes are balanced if they close what is open. -/
theorem Takes.balances (h : Takes ts p q) (hq : q.parens = 0) : Balances p.parens ts := by
  induction ts generalizing p with
  | nil =>
    rw [show p = q from h]
    exact hq
  | cons t ts ih =>
    obtain ⟨m, hm, hts⟩ := h
    have hcounted := parens_of_push hm
    refine ⟨hcounted.close, hcounted.semicolon, ?_⟩
    rw [← hcounted.level]
    exact ih hts

/-- A statement ends where no parenthesis is open. -/
theorem parens_of_drain (h : p.drain = (q, none)) : p.parens = 0 := by
  have hwalk := drain_walks p
  rw [h] at hwalk
  obtain ⟨r, hr, hend⟩ := hwalk.exists_end (I := fun r => r.parens = p.parens) rfl
    (fun hreduces hr => hreduces.parens.trans hr) rfl
  rw [← hr]
  cases hend with
  | done pending => exact parens_of_nil pending

end Parser

/-! ## Markers that do not get in the way -/

/-- Markers, the latest first, among which a call has its parenthesis right above it and a
declaration has no parenthesis below it. -/
inductive Sheltered : List Marker → Prop where
  | nil : Sheltered []
  | operator {t : Token} {b : Binding} {ms : List Marker} (rest : Sheltered ms) :
      Sheltered (.operator t b :: ms)
  | letWord {t : Token} {ms : List Marker} (outside : ms.countP Marker.isParen = 0)
      (rest : Sheltered ms) : Sheltered (.letWord t :: ms)
  | group {t : Token} {n : Nat} {ms : List Marker} (rest : Sheltered ms) :
      Sheltered (.paren t n :: ms)
  | call {t f : Token} {n : Nat} {ms : List Marker} (rest : Sheltered ms) :
      Sheltered (.paren t n :: .call f :: ms)

/-- Markers before some tokens. A call may wait for its parenthesis if that is the next token. -/
inductive Readied : List Token → List Marker → Prop where
  | sheltered {ts : List Token} {ms : List Marker} (h : Sheltered ms) : Readied ts ms
  | called {ts : List Token} {o f : Token} {ms : List Marker} (kind : o.kind = .openParen)
      (h : Sheltered ms) : Readied (o :: ts) (.call f :: ms)

section

variable {ts : List Token} {ms : List Marker} {opening f : Token} {n : Nat}

theorem Sheltered.tail {m : Marker} (h : Sheltered (m :: ms)) (hm : m.isFolded = true) :
    Sheltered ms := by
  cases h with
  | operator rest | letWord _ rest => exact rest
  | group | call => cases hm

/-- A group that is no argument is left. -/
theorem Sheltered.value (h : Sheltered (.paren opening n :: ms))
    (free : ∀ f rest, ms ≠ .call f :: rest) : Sheltered ms := by
  cases h with
  | group rest => exact rest
  | @call _ f _ ms rest => exact (free f ms rfl).elim

/-- A group that is an argument is left, and its call. -/
theorem Sheltered.argument (h : Sheltered (.paren opening n :: .call f :: ms)) :
    Sheltered ms := by
  cases h with
  | group rest => cases rest
  | call rest => exact rest

/-- No call waits before tokens that do not begin with an open parenthesis. -/
theorem Readied.sheltered_of (h : Readied ts ms) (ht : ∀ o ∈ ts.head?, o.kind ≠ .openParen) :
    Sheltered ms := by
  cases h with
  | sheltered h => exact h
  | called kind => exact (ht _ rfl kind).elim

/-- A parenthesis that opens shelters the call that waits for it. -/
theorem Readied.paren (h : Readied ts ms) (n : Nat) : Sheltered (.paren opening n :: ms) := by
  cases h with
  | sheltered h => exact .group h
  | called _ h => exact .call h

end

/-- Tokens with parentheses in balance, when `depth` are open already, where each call has its
parenthesis right behind it and no declaration begins in parentheses. -/
structure Orderly (depth : Nat) (ts : List Token) : Prop where
  balances : Balances depth ts
  calls : ∀ i (h : i < ts.length), ts[i].kind.IsCall → (ts[i + 1]?).any (·.kind = .openParen)
  letWords : ∀ i (h : i < ts.length), ts[i].kind = .keyword .letWord →
    depth + opens (ts.take i) = closes (ts.take i)

/-- What a token leaves of orderly tokens is orderly. -/
theorem Orderly.tail {depth : Nat} {t : Token} {ts : List Token} (h : Orderly depth (t :: ts)) :
    Orderly (t.level depth) ts where
  balances := h.balances.2.2
  calls := fun i hi => h.calls (i + 1) (Nat.succ_lt_succ hi)
  letWords := fun i hi hk => by
    have hlevel := level_eq h.balances.1 (ts.take i)
    have htake := h.letWords (i + 1) (Nat.succ_lt_succ hi) hk
    rw [List.take_succ_cons] at htake
    rw [closes_cons] at htake
    omega

namespace Parser

variable {t : Token} {ts : List Token} {p q : Parser} {o : Outcome} {ms : List Marker}

/-- A step that does not fail over parentheses, and leaves markers that some property has. -/
structure Passes (I : List Marker → Prop) (o : Outcome) : Prop where
  failure : ∀ d, o.2 = some d → d.problem ≠ .mismatchedParenthesis
  pending : o.2 = none → I o.1.pending

theorem passes_ok {I : List Marker → Prop} (h : I q.pending) : Passes I (q, none) where
  failure := nofun
  pending := fun _ => h

theorem passes_missing {I : List Marker → Prop} {u : Token} : Passes I (q, some (missing u)) where
  failure := fun d hd => by
    cases hd
    exact nofun
  pending := nofun

theorem Reduces.readied (h : Reduces p q) (hp : Readied ts p.pending) :
    Readied ts q.pending := by
  cases h with
  | @fold m ms xs rest pending folded =>
    rw [pending] at hp
    cases hp with
    | sheltered h => exact .sheltered (h.tail folded)
    | called => cases folded

/-- Where the latest marker is neither an operator nor a parenthesis, no parenthesis is open. -/
theorem parens_of_sheltered (h : Sheltered p.pending)
    (top : ∀ m ∈ p.pending.head?, m.isOperator = false ∧ m.count? = none) : p.parens = 0 := by
  unfold Parser.parens
  generalize p.pending = ms at h top
  cases h with
  | nil => rfl
  | operator rest => cases (top _ rfl).1
  | letWord outside rest => exact outside
  | group rest | call rest => cases (top _ rfl).2

theorem Ends.passes (h : Ends p o) (hp : Sheltered p.pending) (hzero : p.parens = 0) :
    Passes (Readied ts) o := by
  cases h with
  | done pending => exact passes_ok (.sheltered hp)
  | @unclosed m ms pending folded =>
    rw [pending] at hp
    cases hp with
    | operator | letWord => cases folded
    | group | call =>
      rw [parens_of_paren pending] at hzero
      cases hzero

theorem Awaits.readied {m : Marker} (h : Awaits t p m) (hp : Readied (t :: ts) p.pending)
    (orderly : Orderly p.parens (t :: ts)) : Readied ts (m :: p.pending) := by
  have hsheltered (ht : t.kind ≠ .openParen) : Sheltered p.pending := hp.sheltered_of (by simpa)
  cases h with
  | call kind =>
    have hopen : t.kind ≠ .openParen := by
      rcases kind with kind | kind <;> rw [kind] <;> exact nofun
    have hnext := orderly.calls 0 (Nat.succ_pos _) kind
    cases ts with
    | nil => cases hnext
    | cons o ts => exact .called (of_decide_eq_true hnext) (hsheltered hopen)
  | paren => exact .sheltered (hp.paren _)
  | letWord kind =>
    have hzero : p.parens = 0 := orderly.letWords 0 (Nat.succ_pos _) kind
    exact .sheltered (.letWord hzero (hsheltered (by rw [kind]; exact nofun)))
  | operator bound =>
    refine .sheltered (.operator (hsheltered fun hk => ?_))
    rw [hk] at bound
    cases bound

theorem Arrives.passes (h : Arrives t p o) (hp : Readied (t :: ts) p.pending)
    (orderly : Orderly p.parens (t :: ts)) : Passes (Readied ts) o := by
  have hsheltered (ht : t.kind ≠ .openParen) : Sheltered p.pending := hp.sheltered_of (by simpa)
  cases h with
  | unread kind | lexical kind | refused kind =>
    exact passes_ok (.sheltered (hsheltered (by rw [kind]; exact nofun)))
  | operand kind =>
    refine passes_ok (.sheltered (hsheltered fun hk => ?_))
    rw [hk] at kind
    cases kind
  | marker h => exact passes_ok (h.readied hp orderly)
  | value kind pending free =>
    rw [kind, pending] at hsheltered
    exact passes_ok (.sheltered ((hsheltered nofun).value free))
  | argument kind pending =>
    rw [kind, pending] at hsheltered
    exact passes_ok (.sheltered (hsheltered nofun).argument)
  | unreached => exact passes_missing
  | unopened kind top =>
    have hzero := parens_of_sheltered (hsheltered (by rw [kind]; exact nofun)) top
    exact (orderly.balances.1 kind hzero).elim
  | semicolon kind h =>
    exact h.passes (hsheltered (by rw [kind]; exact nofun)) (orderly.balances.2.1 kind)

/-- No token that is in order is refused for its parentheses, and the markers that it leaves are
ready for those behind it. -/
theorem passes_push (hp : Readied (t :: ts) p.pending) (orderly : Orderly p.parens (t :: ts)) :
    Passes (Readied ts) (p.push t) := by
  refine (push_walks t p).keeps
    (I := fun r => Readied (t :: ts) r.pending ∧ r.parens = p.parens) ⟨hp, rfl⟩ ?_ ?_ ?_
  · rintro q r hr ⟨hq, hparens⟩
    exact ⟨hr.readied hq, hr.parens.trans hparens⟩
  · rintro q o he ⟨hq, hparens⟩
    exact he.passes hq (hparens ▸ orderly)
  · intros
    exact passes_missing

/-- Outside of all parentheses, no statement ends in a failure over them. -/
theorem passes_drain (hp : Readied [] p.pending) (hzero : p.parens = 0) :
    Passes (Readied []) p.drain := by
  refine (drain_walks p).keeps (I := fun r => Readied [] r.pending ∧ r.parens = 0) ⟨hp, hzero⟩
    ?_ ?_ ?_
  · rintro q r hr ⟨hq, hparens⟩
    exact ⟨hr.readied hq, hr.parens.trans hparens⟩
  · rintro q o he ⟨hq, hparens⟩
    exact he.passes (hq.sheltered_of nofun) hparens
  · intros
    exact passes_missing

/-- Orderly tokens that are taken leave what follows in order, and the markers ready for it. -/
theorem Takes.orderly {us : List Token} (h : Takes ts p q) (hp : Readied (ts ++ us) p.pending)
    (orderly : Orderly p.parens (ts ++ us)) : Readied us q.pending ∧ Orderly q.parens us := by
  induction ts generalizing p with
  | nil =>
    rw [← show p = q from h]
    exact ⟨hp, orderly⟩
  | cons t ts ih =>
    obtain ⟨m, hm, hts⟩ := h
    have hpasses := passes_push hp orderly
    rw [hm] at hpasses
    refine ih hts (hpasses.pending rfl) ?_
    rw [(parens_of_push hm).level]
    exact orderly.tail

end Parser

theorem Token.problem_of_report? {t : Token} {d : Diagnostic} (h : t.report? = some d) :
    d.problem ≠ .mismatchedParenthesis := by
  unfold Token.report? at h
  split at h <;> cases h <;> exact nofun

/-- A parser that is fed orderly tokens does not fail over parentheses, neither at one of them nor
at their end. -/
theorem Orderly.feed {ts : List Token} (orderly : Orderly 0 ts) {d : Diagnostic}
    (h : (parseTokens ts).2 = .error d) : d.problem ≠ .mismatchedParenthesis := by
  have hfed : Fed Parser.empty ts (Intake.sink.feed Intake.start ts) := fed ts Parser.empty
  have hempty : ∀ us, Readied us Parser.empty.pending := fun us => .sheltered .nil
  unfold parseTokens at h
  generalize Intake.sink.feed Intake.start ts = i at h hfed
  cases hfed with
  | @taken _ q htakes =>
    rw [(conclude_of_taken q).2] at h
    cases hd : q.diagnostics with
    | nil =>
      rw [hd] at h
      obtain ⟨hready, hrest⟩ := htakes.orderly (hempty _) ((List.append_nil ts).symm ▸ orderly)
      have hpasses := passes_drain hready hrest.balances
      rcases finish_cases q with ⟨r, -, hfinish⟩ | ⟨r, d', hdrain, hfinish⟩
      · rw [hfinish] at h
        cases h
      · rw [hfinish] at h
        cases h
        rw [hdrain] at hpasses
        exact hpasses.failure d rfl
    | cons d' ds =>
      rw [hd] at h
      cases h
      have hmem : d ∈ Parser.empty.diagnostics ++ ts.filterMap Token.report? := by
        rw [← htakes.reported, hd]
        exact List.mem_cons_self
      obtain ⟨t, -, ht⟩ := List.mem_filterMap.mp hmem
      exact Token.problem_of_report? ht
  | @refused before after t q r d' htakes failed =>
    cases h
    obtain ⟨hready, hrest⟩ := htakes.orderly (hempty _) orderly
    have hpasses := passes_push hready hrest
    rw [failed] at hpasses
    exact hpasses.failure d rfl

/-- Tokens that are accepted have their parentheses balanced up to each semicolon. -/
theorem balances_of_ok {ts : List Token} {trees : List Tree}
    (h : (parseTokens ts).2 = .ok trees) : Balances 0 ts := by
  have hfed : Fed Parser.empty ts (Intake.sink.feed Intake.start ts) := fed ts Parser.empty
  unfold parseTokens at h
  generalize Intake.sink.feed Intake.start ts = i at h hfed
  cases hfed with
  | @taken _ q htakes =>
    rw [(conclude_of_taken q).2] at h
    cases hd : q.diagnostics with
    | nil =>
      rw [hd] at h
      rcases finish_cases q with ⟨r, hdrain, -⟩ | ⟨r, d, -, hfinish⟩
      · exact htakes.balances (parens_of_drain hdrain)
      · rw [hfinish] at h
        cases h
    | cons d ds =>
      rw [hd] at h
      cases h
  | refused => cases h

/-- Of tokens that are accepted, the parentheses of each segment are balanced. The other way about,
where those of each segment are balanced, where each token that is called has a parenthesis behind
it and where no word for a declaration stands in parentheses, the tokens are not refused for their
parentheses. -/
theorem parens_balance (ts : List Token) :
    (∀ trees, (parseTokens ts).2 = .ok trees → ∀ s ∈ segments ts, Balanced s) ∧
    ((∀ s ∈ segments ts, Balanced s) →
      (∀ i (h : i < ts.length), ts[i].kind.IsCall → (ts[i + 1]?).any (·.kind = .openParen)) →
      (∀ i (h : i < ts.length), ts[i].kind = .keyword .letWord →
        opens (ts.take i) = closes (ts.take i)) →
      ∀ d, (parseTokens ts).2 = .error d → d.problem ≠ .mismatchedParenthesis) := by
  refine ⟨fun trees h => balances_iff.mp (balances_of_ok h), fun hbalanced hcalls hlets d h => ?_⟩
  have orderly : Orderly 0 ts :=
    ⟨balances_iff.mpr hbalanced, hcalls, fun i hi hk => (Nat.zero_add _).trans (hlets i hi hk)⟩
  exact orderly.feed h

/-- A call, and in the next statement a declaration behind a value, with the word `tuple` and
something in its parentheses: no lexer finishes these tokens. -/
def declaredTuple (inner : List Token) : List Token :=
  [⟨.function, "f", 0, 0, "shell"⟩, ⟨.openParen, "(", 1, 1, "shell"⟩,
    ⟨.closeParen, ")", 2, 2, "shell"⟩, ⟨.keyword .semicolon, ";", 3, 3, "shell"⟩,
    ⟨.integer, "1", 5, 5, "shell"⟩, ⟨.keyword .letWord, "let", 7, 9, "shell"⟩,
    ⟨.type .tuple, "tuple", 11, 15, "shell"⟩, ⟨.openParen, "(", 16, 16, "shell"⟩]
    ++ inner ++ [⟨.closeParen, ")", 18, 18, "shell"⟩]

/-- With nothing in the parentheses the tokens are accepted. With an operator there they are not,
and what they lack is an operand. -/
theorem parens_balance_declaredTuple :
    (∀ s ∈ segments (declaredTuple []), Balanced s) ∧
      (parseTokens (declaredTuple [⟨.operator .add, "+", 17, 17, "shell"⟩])).2
        = .error ⟨.missingOperand "+", ⟨17, "shell"⟩⟩ ∧
      ∀ d, (parseTokens (declaredTuple [⟨.operator .add, "+", 17, 17, "shell"⟩])).2 = .error d →
        d.problem ≠ .mismatchedParenthesis :=
  ⟨(parens_balance (declaredTuple [])).1 _ rfl, rfl,
    (parens_balance (declaredTuple [⟨.operator .add, "+", 17, 17, "shell"⟩])).2 (by decide)
      (by decide) (by decide)⟩

end ExprYard
