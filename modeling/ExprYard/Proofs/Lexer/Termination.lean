import ExprYard.Proofs.Lexer.Answers

/-!
# How long a lexer works

A lexer comes to an end because its potential goes down (`Lexer.potential_step_lt`). This module says
how soon it does, request by request and over all requests (`requests_bounded`).

A step that finishes no token leaves the rest to a state of a lower rank (`State.rank_lt_of_silent`),
and no rank is above four; so a request takes at most four steps. Every token that is no report lies
on runes of its own (`Tiles.length_le`), and there is one report at most; so there are not many more
tokens than runes.
-/

namespace ExprYard

/-! ## Ranks -/

namespace State

/-- In how many steps, at most, a state comes to a finished token or to the end. -/
def rank : State → Nat
  | .statementHead => 4
  | .operand => 3
  | .leadingWord | .number | .afterOperand => 2
  | _ => 1

theorem rank_pos (s : State) : 0 < s.rank := by
  cases s <;> decide

theorem rank_le (s : State) : s.rank ≤ 4 := by
  cases s <;> decide

theorem rank_lt_of_silent (s : State) : ∀ s' ∈ s.silent, s'.rank < s.rank := by
  cases s <;> decide

end State

theorem Turn.mem_silent {s s' : State} {p p' : Nat} {os os' : List Nat}
    (h : Turn ⟨s, p, os⟩ [] ⟨s', p', os'⟩) : s' ∈ s.silent := by
  cases h
  assumption

/-- Each tile has a rune. -/
theorem Tiles.length_le {file : String} {offset : Nat} {runes : List Char} {ts : List Token}
    (h : Tiles file offset runes ts) : ts.length ≤ runes.length := by
  induction h with
  | blanks => exact Nat.zero_le _
  | @token offset gap word rest t ts blank nonempty text span tail ih =>
    have hword := List.length_pos_iff.mpr nonempty
    rw [List.length_cons, List.length_append, List.length_append]
    omega

namespace Lexer

variable {l : Lexer} {n : Nat}

/-! ## Steps of one request -/

/-- A lexer settles in so many steps: before each of them no token is finished and something is
still expected. -/
structure SettlesIn (n : Nat) (l : Lexer) : Prop where
  settle : l.settle = step^[n] l
  works : ∀ k, k < n → (step^[k] l).queue = [] ∧ (step^[k] l).state ≠ none

theorem settlesIn_zero (h : l.queue ≠ [] ∨ l.state = none) : SettlesIn 0 l where
  settle := by
    rw [Lexer.settle]
    split
    · rename_i state hq hs
      rcases h with hqueue | hstate
      · exact (hqueue hq).elim
      · rw [hs] at hstate
        cases hstate
    · rfl
  works := by
    intro k hk
    exact absurd hk (Nat.not_lt_zero k)

/-- One step more. -/
theorem SettlesIn.succ {state : State} (hq : l.queue = []) (hs : l.state = some state)
    (h : SettlesIn n l.step) : SettlesIn (n + 1) l where
  settle := by
    rw [settle_eq_of_expecting hq hs]
    exact h.settle
  works := by
    intro k hk
    cases k with
    | zero =>
      refine ⟨hq, ?_⟩
      show l.state ≠ none
      rw [hs]
      exact Option.some_ne_none state
    | succ k => exact h.works k (Nat.lt_of_succ_lt_succ hk)

/-- A lexer that enters a state settles in no more steps than the state has rank. -/
theorem exists_settlesIn_of_poised (state : State) : ∀ l : Lexer, l.queue = [] →
    l.state = some state → Poised state l → ∃ n, n ≤ state.rank ∧ SettlesIn n l := by
  intro l hq hs poised
  have hone : l.step.queue ≠ [] ∨ l.step.state = none →
      ∃ n, n ≤ state.rank ∧ SettlesIn n l := by
    intro hdone
    exact ⟨1, state.rank_pos, (settlesIn_zero hdone).succ hq hs⟩
  have did := did_step hs poised
  generalize hm : l.step = m at did hone
  cases did with
  | @went m next ts covers turn expects queue error poised =>
    rw [hq, List.nil_append] at queue
    -- Without a token the turn is a silent one, and then the next state has a lower rank.
    by_cases hts : ts = []
    · rw [hts] at turn queue
      have hrank := state.rank_lt_of_silent next turn.mem_silent
      obtain ⟨n, hn, hsettles⟩ := exists_settlesIn_of_poised next m queue expects poised
      rw [← hm] at hsettles
      exact ⟨n + 1, by omega, hsettles.succ hq hs⟩
    · apply hone
      rw [queue]
      exact .inl hts
  | halted => exact hone (.inr rfl)
  | failed => exact hone (.inr rfl)
termination_by state.rank

/-- However many requests there were, the next one takes at most four steps. -/
theorem exists_settlesIn (source : List Char) (file : String) (n : Nat) :
    ∃ k, k ≤ 4 ∧ SettlesIn k ((ofRunes source file).after n) := by
  rcases (clean_ofRunes source file).after_cases n with clean | ⟨d, -, -, -, gaveUp⟩
  · generalize (ofRunes source file).after n = l at clean
    by_cases hq : l.queue = []
    · cases hs : l.state with
      | none => exact ⟨0, Nat.zero_le 4, settlesIn_zero (.inr hs)⟩
      | some state =>
        obtain ⟨k, hk, hsettles⟩ :=
          exists_settlesIn_of_poised state l hq hs (clean.poised state hs)
        exact ⟨k, Nat.le_trans hk state.rank_le, hsettles⟩
    · exact ⟨0, Nat.zero_le 4, settlesIn_zero (.inl hq)⟩
  · exact ⟨0, Nat.zero_le 4, settlesIn_zero (.inr gaveUp.stopped)⟩

/-! ## Tokens of all requests -/

/-- The tokens of a source are at most as many as its runes, and a report behind them. -/
theorem exists_tokens_eq (source : List Char) (file : String) :
    ∃ ts late, (ofRunes source file).tokens.1 = ts ++ late ∧ ts.length ≤ source.length ∧
      late.length ≤ 1 ∧ (∀ t ∈ ts, t.kind ≠ .error) ∧ ∀ t ∈ late, t.kind = .error := by
  obtain ⟨ts, state, m, n, work, -, hts⟩ := tokens_cases source file
  obtain ⟨-, w, hw, -, tiles⟩ := work.covers.tiles
  have hlen : ts.length ≤ source.length := by
    have hruns := congrArg List.length hw
    rw [List.length_append] at hruns
    have htiles := tiles.length_le
    omega
  have clean : ∀ t ∈ ts, t.kind ≠ .error := by
    intro t ht
    exact Kind.ne_error_of_isSpoken (work.turns.isSpoken t ht)
  rcases hts with ⟨-, -, hts⟩ | ⟨problem, hts⟩
  · refine ⟨ts, [], ?_, hlen, Nat.zero_le 1, clean, ?_⟩
    · rw [hts, List.append_nil]
    · intro t ht
      cases ht
  · refine ⟨ts, [report ⟨problem, ⟨n.offset, n.file⟩⟩], ?_, hlen, Nat.le_refl 1, clean, ?_⟩
    · rw [hts]
    · intro t ht
      rw [List.mem_singleton.mp ht]
      rfl

/-- Among the tokens of a source there are at most as many of its text as it has runes, and at most
one report. -/
theorem filter_tokens_length_le (source : List Char) (file : String) :
    ((ofRunes source file).tokens.1.filter (fun t => t.kind ≠ .error)).length ≤ source.length ∧
      ((ofRunes source file).tokens.1.filter (fun t => t.kind = .error)).length ≤ 1 := by
  obtain ⟨ts, late, htokens, hlen, hlate, clean, reports⟩ := exists_tokens_eq source file
  rw [htokens, List.filter_append, List.filter_append, List.length_append, List.length_append]
  have hnone : late.filter (fun t => t.kind ≠ .error) = [] := by
    rw [List.filter_eq_nil_iff]
    intro t ht
    simp [reports t ht]
  have hclean : ts.filter (fun t => t.kind = .error) = [] := by
    rw [List.filter_eq_nil_iff]
    intro t ht
    simp [clean t ht]
  have hspoken := List.length_filter_le (fun t : Token => decide (t.kind ≠ .error)) ts
  have hreport := List.length_filter_le (fun t : Token => decide (t.kind = .error)) late
  rw [hnone, hclean, List.length_nil]
  omega

/-- What is handed out are some of the tokens of the source, so there are no more of a sort. -/
theorem filter_handed_length_le (p : Token → Bool) (n : Nat) (l : Lexer) :
    ((l.handed n).filter p).length ≤ (l.tokens.1.filter p).length := by
  rw [handed_eq_take]
  exact ((List.take_sublist n _).filter p).length_le

end Lexer

/-- A lexer of a source works in bounds. However often it has been asked for a token, the next
request takes it at most four steps. All requests together hand out at most as many tokens as the
source has runes, and one report besides; so a request that comes behind as many others as the
source has runes, and one more, finds no token. -/
theorem requests_bounded (source : List Char) (file : String) :
    (∀ n, ∃ k, k ≤ 4 ∧ Lexer.SettlesIn k ((Lexer.ofRunes source file).after n)) ∧
    (∀ n, (((Lexer.ofRunes source file).handed n).filter (fun t => t.kind ≠ .error)).length
        ≤ source.length ∧
      (((Lexer.ofRunes source file).handed n).filter (fun t => t.kind = .error)).length ≤ 1) ∧
    ∀ n, source.length < n → (Lexer.ofRunes source file).answer n = none := by
  refine ⟨Lexer.exists_settlesIn source file, ?_, ?_⟩
  · intro n
    obtain ⟨hspoken, hreports⟩ := Lexer.filter_tokens_length_le source file
    constructor
    · exact Nat.le_trans (Lexer.filter_handed_length_le _ n _) hspoken
    · exact Nat.le_trans (Lexer.filter_handed_length_le _ n _) hreports
  · intro n hn
    obtain ⟨ts, late, htokens, hlen, hlate, -, -⟩ := Lexer.exists_tokens_eq source file
    rw [Lexer.answer_eq_getElem?, htokens, List.getElem?_eq_none_iff, List.length_append]
    omega

end ExprYard
