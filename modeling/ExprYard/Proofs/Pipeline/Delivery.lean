import ExprYard.Pipeline.Parse
import ExprYard.Proofs.Lexer.Answers
import ExprYard.Proofs.Pipeline.Rendezvous
import Mathlib.Order.WellFounded

/-!
# What a pipeline hands over

A consumer of tokens that keeps the first few of them is one of the sinks that a network may have,
so what it comes away with is what it would have drawn from the lexer on request
(`over_of_reaches`): the first tokens of the source, by as many requests. A network that is over may
have seen one more, for a token that no one is left to take. That is why the lexer may have met a
problem whose report was not handed over (`Network.delivered_of_reaches`).

Runes reach their consumer through a relay of two workers. `Relay.Relays` is its invariant.
-/

namespace ExprYard

/-! ## Tokens -/

namespace Lexer

variable {l : Lexer} {t : Token} {n : Nat}

/-- The problem of a lexer, if the report of it is among the first `n` tokens. -/
def errorWithin (n : Nat) (l : Lexer) : Option Diagnostic :=
  if (l.tokens.1.take n).any fun t => t.kind = .error then l.tokens.2.error else none

/-- The first tokens are the answers to the first requests. -/
theorem mem_take_iff : t ∈ l.tokens.1.take n ↔ ∃ k, k < n ∧ l.answer k = some t := by
  constructor
  · intro ht
    obtain ⟨k, hk, rfl⟩ := List.mem_take_iff_getElem.mp ht
    refine ⟨k, Nat.lt_of_lt_of_le hk (Nat.min_le_left _ _), ?_⟩
    rw [answer_eq_getElem?, List.getElem?_eq_getElem]
  · rintro ⟨k, hk, ht⟩
    rw [answer_eq_getElem?] at ht
    obtain ⟨hlength, rfl⟩ := List.getElem?_eq_some_iff.mp ht
    exact List.mem_take_iff_getElem.mpr ⟨k, Nat.lt_min.mpr ⟨hk, hlength⟩, rfl⟩

/-- After `n` requests a clean lexer has met its problem if the report of it was among the
answers. -/
theorem Clean.error_after (h : Clean l) (n : Nat) : (l.after n).error = l.errorWithin n := by
  unfold errorWithin
  by_cases hreport : ∃ t ∈ l.tokens.1.take n, t.kind = .error
  · obtain ⟨t, ht, he⟩ := hreport
    obtain ⟨k, hk, hanswer⟩ := mem_take_iff.mp ht
    obtain ⟨d, -, -, herror⟩ := h.answers.report k t hanswer he
    have hn := herror n
    rw [if_pos hk] at hn
    rw [if_pos (List.any_eq_true.mpr ⟨t, ht, decide_eq_true he⟩), hn, h.error_tokens hn]
  · have hnone := h.answers.clean n fun k t hk hanswer he =>
      hreport ⟨t, mem_take_iff.mpr ⟨k, hk, hanswer⟩, he⟩
    rw [if_neg, hnone]
    intro hany
    obtain ⟨t, ht, he⟩ := List.any_eq_true.mp hany
    exact hreport ⟨t, ht, of_decide_eq_true he⟩

/-- A consumer that has kept some tokens and wants `r` more is fed the first `r` of them, by as many
requests. -/
theorem drain_keeping (r : Nat) (kept : List Token) (l : Lexer) :
    l.drain (Sink.keeping (some (kept.length + r))) kept
      = ((l.tokens.1.take r).reverse ++ kept, l.after r) := by
  induction r generalizing kept l with
  | zero => exact drain_of_not_wants l (decide_eq_false (Nat.lt_irrefl _))
  | succ r ih =>
    have hwants : (Sink.keeping (some (kept.length + (r + 1)))).wants kept = true :=
      decide_eq_true (Nat.lt_add_of_pos_right (Nat.succ_pos r))
    cases hn : l.next with
    | mk found m =>
      have hafter : l.after (r + 1) = m.after r := by rw [after, hn]
      cases found with
      | none =>
        rw [drain_of_next_none hwants hn, tokens_of_next_none hn, hafter,
          after_eq_self (next_of_next_none hn)]
        rfl
      | some t =>
        have hlength : kept.length + (r + 1) = (t :: kept).length + r := by
          rw [List.length_cons]
          omega
        rw [drain_of_next_some hwants hn, tokens_of_next_some hn, hafter, hlength]
        show m.drain _ (t :: kept) = _
        rw [ih]
        simp

end Lexer

namespace Network

variable {source : List Char} {file : String} {k : Nat} {n : Network (List Token)}

/-- A network that is over has handed the first `k` tokens to a consumer that takes no more. Its
lexer has met the problem of the source if the report of it is one of them or the next. -/
theorem delivered_of_reaches (h : Reaches (Sink.keeping (some k)) (start source file []) n)
    (ho : n.isOver = true) :
    n.state.reverse = (Lexer.ofRunes source file).tokens.1.take k ∧
      n.error = (Lexer.ofRunes source file).errorWithin (k + 1) := by
  obtain ⟨hstate, herror⟩ := over_of_reaches h ho
  have hdrain := Lexer.drain_keeping k [] (Lexer.ofRunes source file)
  rw [List.length_nil, Nat.zero_add, List.append_nil] at hdrain
  rw [hdrain] at hstate herror
  dsimp only at hstate herror
  refine ⟨by rw [hstate, List.reverse_reverse], ?_⟩
  rw [herror, ← (Lexer.clean_ofRunes source file).error_after]
  split
  · -- The consumer wants more, so there is no more, and one more request changes nothing.
    rename_i hwants
    have hlength : (Lexer.ofRunes source file).tokens.1.length < k := by
      have hlt := of_decide_eq_true hwants
      rw [List.length_reverse, List.length_take] at hlt
      omega
    have hnone : (Lexer.ofRunes source file).answer (Lexer.ofRunes source file).tokens.1.length
        = none := by
      rw [Lexer.answer_eq_getElem?, List.getElem?_eq_none (Nat.le_refl _)]
    rw [Lexer.after_of_answer_none hnone hlength,
      Lexer.after_of_answer_none hnone (Nat.lt_succ_of_lt hlength)]
  · rw [Lexer.after_succ]

/-- In a network that is over the producer has stopped. -/
theorem producing_of_isOver {σ : Type} {n : Network σ} (h : n.isOver = true) :
    n.producing = false := by
  unfold isOver at h
  split at h
  · simp only [Bool.and_eq_true, Bool.not_eq_true'] at h
    exact h.1
  · cases h

theorem takeTokens_eq (source : List Char) (file : String) (k : Nat) :
    Pipeline.takeTokens source file (some k)
      = ⟨(Lexer.ofRunes source file).tokens.1.take k,
        (Lexer.ofRunes source file).errorWithin (k + 1), true⟩ := by
  have hover := isOver_run (Sink.keeping (some k)) (start source file [])
  obtain ⟨reaches, -⟩ := reaches_run (Sink.keeping (some k)) (start source file [])
  obtain ⟨htokens, herror⟩ := delivered_of_reaches reaches hover
  unfold Pipeline.takeTokens
  dsimp only
  rw [htokens, herror, producing_of_isOver hover]
  rfl

end Network

/-! ## Runes -/

namespace Relay

variable {source : List Char} {k : Nat} {n m : Relay}

/-- The invariant of a relay whose consumer takes at most `k` runes. What has been taken and what
has not been sent make up the source, and neither worker has stopped for nothing. -/
structure Relays (source : List Char) (k : Nat) (n : Relay) : Prop where
  limit : n.limit = some k
  runes : n.received ++ n.unsent = source
  within : n.taken.length ≤ k
  producer : n.producing = false → n.unsent = [] ∨ n.consuming = false
  consumer : n.consuming = false → n.taken.length = k ∨ n.unsent = []

theorem relays_start (source : List Char) (k : Nat) : Relays source k (start source (some k)) where
  limit := rfl
  runes := rfl
  within := Nat.zero_le k
  producer := nofun
  consumer := nofun

theorem Relays.wants_iff (h : Relays source k n) : n.wants = true ↔ n.taken.length < k := by
  unfold wants
  rw [h.limit]
  exact decide_eq_true_iff

theorem relays_move {a : Move} (h : Relays source k n) (hm : n.move a = some m) :
    Relays source k m := by
  have hwants := h.wants_iff
  cases a with
  | handRune =>
    simp only [move] at hm
    split at hm
    · rename_i r unsent hunsent
      split at hm <;> cases hm
      rename_i hp
      simp only [Bool.and_eq_true] at hp
      obtain ⟨⟨hproducing, hconsuming⟩, hw⟩ := hp
      refine ⟨h.limit, ?_, hwants.mp hw, fun hn => ?_, fun hn => ?_⟩
      · rw [← h.runes, hunsent]
        simp [received]
      · exact absurd hproducing (by simpa using hn)
      · exact absurd hconsuming (by simpa using hn)
    · cases hm
  | exhaust =>
    simp only [move] at hm
    split at hm <;> cases hm
    rename_i hp
    simp only [Bool.and_eq_true, List.isEmpty_iff] at hp
    exact ⟨h.limit, h.runes, h.within, fun _ => .inl hp.2, h.consumer⟩
  | abandon =>
    simp only [move] at hm
    split at hm <;> cases hm
    rename_i hp
    simp only [Bool.and_eq_true, Bool.not_eq_true'] at hp
    exact ⟨h.limit, h.runes, h.within, fun _ => .inr hp.2, h.consumer⟩
  | suffice =>
    simp only [move] at hm
    split at hm <;> cases hm
    rename_i hp
    simp only [Bool.and_eq_true, Bool.not_eq_true'] at hp
    refine ⟨h.limit, h.runes, h.within, fun _ => .inr rfl, fun _ => .inl ?_⟩
    have hnot : ¬ n.taken.length < k := fun hlt => Bool.eq_false_iff.mp hp.2 (hwants.mpr hlt)
    exact Nat.le_antisymm h.within (Nat.le_of_not_lt hnot)
  | closeRunes =>
    simp only [move] at hm
    split at hm <;> cases hm
    rename_i hp
    simp only [Bool.and_eq_true, Bool.not_eq_true'] at hp
    obtain ⟨⟨hconsuming, -⟩, hproducing⟩ := hp
    refine ⟨h.limit, h.runes, h.within, fun _ => .inr rfl, fun _ => .inr ?_⟩
    rcases h.producer hproducing with hunsent | hn
    · exact hunsent
    · rw [hconsuming] at hn
      cases hn

theorem relays_of_reaches (h : Reaches n m) (hn : Relays source k n) : Relays source k m := by
  induction h with
  | refl n => exact hn
  | step a first rest ih => exact ih (relays_move hn first)

theorem isOver_iff : n.isOver = true ↔ n.producing = false ∧ n.consuming = false := by
  unfold isOver
  rw [Bool.and_eq_true, Bool.not_eq_true', Bool.not_eq_true']

/-- A relay that is over has handed the first `k` runes over. -/
theorem received_of_over (h : Relays source k n) (ho : n.isOver = true) :
    n.received = source.take k := by
  obtain ⟨-, hconsuming⟩ := isOver_iff.mp ho
  have hlength : n.received.length = n.taken.length := List.length_reverse
  rw [← h.runes]
  rcases h.consumer hconsuming with htaken | hunsent
  · exact (List.take_left' (hlength.trans htaken)).symm
  · rw [hunsent, List.append_nil, List.take_of_length_le (hlength ▸ h.within)]

/-- Something can happen in a relay unless both workers have stopped. -/
theorem isOver_or_move (n : Relay) : n.isOver = true ∨ ∃ a m, n.move a = some m := by
  obtain ⟨unsent, producing, taken, limit, consuming⟩ := n
  cases producing with
  | false =>
    cases consuming with
    | false => exact .inl rfl
    | true =>
      right
      by_cases hw : wants ⟨unsent, false, taken, limit, true⟩ = true
      · exact ⟨.closeRunes, _, if_pos (by simp [hw])⟩
      · exact ⟨.suffice, _, if_pos (by simp [hw])⟩
  | true =>
    right
    cases unsent with
    | nil => exact ⟨.exhaust, _, rfl⟩
    | cons r unsent =>
      cases consuming with
      | false => exact ⟨.abandon, _, rfl⟩
      | true =>
        by_cases hw : wants ⟨r :: unsent, true, taken, limit, true⟩ = true
        · exact ⟨.handRune, _, if_pos (by simp [hw])⟩
        · exact ⟨.suffice, _, if_pos (by simp [hw])⟩

/-- No order of moves goes on forever. -/
theorem exists_no_move (f : Nat → Relay) : ∃ i, ∀ a, (f i).move a ≠ some (f (i + 1)) := by
  obtain ⟨i, hi⟩ := WellFounded.not_rel_apply_succ (r := (· < ·)) fun i => (f i).measure
  exact ⟨i, fun a ha => hi (measure_move_lt ha)⟩

theorem isOver_run (n : Relay) : n.run.isOver = true := by
  obtain ⟨-, stuck⟩ := reaches_run n
  rcases isOver_or_move n.run with hover | ⟨a, m, hm⟩
  · exact hover
  · rw [stuck a] at hm
    cases hm

theorem takeRunes_eq (source : List Char) (k : Nat) :
    Pipeline.takeRunes source (some k) = (source.take k, true) := by
  have hover := isOver_run (start source (some k))
  obtain ⟨reaches, -⟩ := reaches_run (start source (some k))
  have hreceived := received_of_over (relays_of_reaches reaches (relays_start source k)) hover
  unfold Pipeline.takeRunes
  dsimp only
  rw [hreceived, (isOver_iff.mp hover).1]
  rfl

end Relay

/-- A consumer that takes at most `k` tokens from a lexer at work beside it gets the first `k` of
those that the lexer finishes on request, in whatever order the workers take turns; so does one that
takes at most `k` runes from a producer. No order of turns goes on forever, and none is stuck before
all workers have stopped. The lexer is by then at most one token further: it has met the problem of
the source if the report of that is among the first `k + 1` tokens, and none otherwise. So it is for
the order of turns that a pipeline happens to choose. -/
theorem pipeline_delivers (source : List Char) (file : String) (k : Nat) :
    ((∀ f : Nat → Network (List Token), f 0 = Network.start source file [] →
        ∃ i, ∀ a, (f i).move (Sink.keeping (some k)) a ≠ some (f (i + 1))) ∧
      (∀ n, Network.Reaches (Sink.keeping (some k)) (Network.start source file []) n →
        (n.isOver = true ∨ ∃ a m, n.move (Sink.keeping (some k)) a = some m) ∧
        (n.isOver = true →
          n.state.reverse = (Lexer.ofRunes source file).tokens.1.take k ∧
          n.error = (Lexer.ofRunes source file).errorWithin (k + 1))) ∧
      Pipeline.takeTokens source file (some k)
        = ⟨(Lexer.ofRunes source file).tokens.1.take k,
          (Lexer.ofRunes source file).errorWithin (k + 1), true⟩) ∧
    (∀ f : Nat → Relay, f 0 = Relay.start source (some k) →
        ∃ i, ∀ a, (f i).move a ≠ some (f (i + 1))) ∧
      (∀ n, Relay.Reaches (Relay.start source (some k)) n →
        (n.isOver = true ∨ ∃ a m, n.move a = some m) ∧
        (n.isOver = true → n.received = source.take k)) ∧
      Pipeline.takeRunes source (some k) = (source.take k, true) := by
  refine ⟨⟨fun f _ => Network.exists_no_move f, ?_, ?_⟩, fun f _ => Relay.exists_no_move f, ?_, ?_⟩
  · intro n h
    exact ⟨Network.isOver_or_move _ n, Network.delivered_of_reaches h⟩
  · exact Network.takeTokens_eq source file k
  · intro n h
    exact ⟨Relay.isOver_or_move n, Relay.received_of_over (Relay.relays_of_reaches h
      (Relay.relays_start source k))⟩
  · exact Relay.takeRunes_eq source k

end ExprYard
