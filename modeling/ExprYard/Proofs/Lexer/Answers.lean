import ExprYard.Proofs.Lexer.Requests
import ExprYard.Proofs.Lexer.Tiling

/-!
# One request after the other

Whoever holds a lexer may ask it for a token as often as it likes, also when there is none left, and
may look at the lexer's problem in between. What the lexer says of its problem keeps step with what
it hands out (`Answers`): it has met none until the report of one is handed out, and from then on it
has that problem and no other, and no more tokens. Once it has had no token to give, it stays as it
is.

The invariant is that of `Clean.next_some`: between two requests a lexer is either clean or has
given up and handed its report out (`Clean.after_cases`).

The input of a lexer may be anything that gives a rune or none each time it is asked. It may go on
forever, or give runes again after it gave none. What it has not been asked for makes no difference
to the answers (`after_amid`), and it is not asked again after it gave none.
-/

namespace ExprYard

/-! ## Inputs -/

namespace Cursor

/-- What an input gives after it gave none does not count. -/
theorem untilSilence_append_of_mem {answers : List (Option Char)} (h : none ∈ answers)
    (more : List (Option Char)) : untilSilence (answers ++ more) = untilSilence answers := by
  induction answers with
  | nil => cases h
  | cons answer answers ih =>
    cases answer with
    | none => rfl
    | some r =>
      have hmem : none ∈ answers := (List.mem_cons.mp h).resolve_left nofun
      exact congrArg (r :: ·) (ih hmem)

/-- An input that has given runes only may go on. -/
theorem untilSilence_append {answers : List (Option Char)} (h : none ∉ answers)
    (more : List (Option Char)) :
    untilSilence (answers ++ more) = untilSilence answers ++ untilSilence more := by
  induction answers with
  | nil => rfl
  | cons answer answers ih =>
    cases answer with
    | none => exact (h List.mem_cons_self).elim
    | some r =>
      have hmem : none ∉ answers := fun hm => h (List.mem_cons_of_mem _ hm)
      exact congrArg (r :: ·) (ih hmem)

end Cursor

namespace Lexer

/-! ## Requests -/

/-- The lexer after a number of requests for a token. -/
def after : Nat → Lexer → Lexer
  | 0, l => l
  | n + 1, l => l.next.2.after n

/-- What a lexer answers to the request that comes after `n` others. -/
def answer (n : Nat) (l : Lexer) : Option Token :=
  (l.after n).next.1

variable {l m : Lexer} {t : Token} {n k : Nat}

theorem after_add (n k : Nat) (l : Lexer) : l.after (n + k) = (l.after n).after k := by
  induction n generalizing l with
  | zero => rw [Nat.zero_add]; rfl
  | succ n ih =>
    rw [Nat.add_right_comm]
    exact ih l.next.2

theorem after_succ (n : Nat) (l : Lexer) : l.after (n + 1) = (l.after n).next.2 :=
  after_add n 1 l

/-- A request is an answer and the lexer after it. -/
theorem next_after (n : Nat) (l : Lexer) :
    (l.after n).next = (l.answer n, l.after (n + 1)) := by
  rw [after_succ]
  rfl

theorem after_eq_self (h : l.next = (none, l)) (n : Nat) : l.after n = l := by
  induction n with
  | zero => rfl
  | succ n ih => rw [after_succ, ih, h]

/-- A lexer that had no token to give stays as it is when it is asked again. -/
theorem next_of_next_none (h : l.next = (none, m)) : m.next = (none, m) := by
  obtain ⟨-, hqueue, hstate⟩ := next_eq_none h
  unfold next
  rw [settle_of_over hstate]
  dsimp only
  rw [hqueue]

theorem after_of_answer_none (h : l.answer n = none) (hk : n < k) :
    l.after k = l.after (n + 1) := by
  obtain ⟨j, rfl⟩ := Nat.exists_eq_add_of_le (Nat.succ_le_of_lt hk)
  have hnext := next_after n l
  rw [h] at hnext
  rw [after_add]
  exact after_eq_self (next_of_next_none hnext) j

theorem answer_of_answer_none (h : l.answer n = none) (hk : n ≤ k) : l.answer k = none := by
  rcases Nat.eq_or_lt_of_le hk with rfl | hlt
  · exact h
  have hnext := next_after n l
  rw [h] at hnext
  unfold answer
  rw [after_of_answer_none h hlt, next_of_next_none hnext]

/-! ## What requests keep -/

/-- The tokens that the first `n` requests hand out. -/
def handed (n : Nat) (l : Lexer) : List Token :=
  (List.range n).filterMap fun k => l.answer k

theorem handed_succ (n : Nat) (l : Lexer) :
    l.handed (n + 1) = l.handed n ++ (l.answer n).toList := by
  have hlast : [n].filterMap (fun k => l.answer k) = (l.answer n).toList := by
    cases hn : l.answer n <;> simp [hn]
  unfold handed
  rw [List.range_succ, List.filterMap_append, hlast]

/-- What a lexer keeps as it steps with nothing finished, it keeps until it has settled. -/
theorem settle_invariant {P : Lexer → Prop}
    (hstep : ∀ l state, P l → l.queue = [] → l.state = some state → P l.step) (h : P l) :
    P l.settle := by
  fun_induction settle l with
  | case1 l state hs hq ih => exact ih (hstep l state h hq hs)
  | case2 l => exact h

/-- A lexer that hands a token out is the settled one without that token. -/
theorem settle_of_next_some (h : l.next = (some t, m)) :
    l.settle.queue = t :: m.queue ∧ m = { l.settle with queue := m.queue } := by
  unfold next at h
  dsimp only at h
  split at h
  · cases h
  · rename_i u queue hq
    cases h
    exact ⟨hq, rfl⟩

/-- What a lexer keeps with the tokens that it has handed out, as it steps with nothing finished and
as it hands out the first token that is finished, it keeps from one request to the next. -/
theorem after_invariant {P : List Token → Lexer → Prop}
    (hstep : ∀ ts l state, P ts l → l.queue = [] → l.state = some state → P ts l.step)
    (hhand : ∀ ts l t queue, P ts l → l.queue = t :: queue → P (ts ++ [t]) { l with queue })
    (h : P [] l) : ∀ n, P (l.handed n) (l.after n) := by
  intro n
  induction n with
  | zero => exact h
  | succ n ih =>
    have hsettle : P (l.handed n) (l.after n).settle := settle_invariant (hstep _) ih
    have hnext := next_after n l
    rw [handed_succ]
    cases hfound : l.answer n with
    | none =>
      rw [hfound] at hnext
      rw [(next_eq_none hnext).1] at hsettle
      exact (List.append_nil (l.handed n)).symm ▸ hsettle
    | some t =>
      rw [hfound] at hnext
      obtain ⟨hqueue, hsame⟩ := settle_of_next_some hnext
      rw [hsame]
      exact hhand _ _ t _ hsettle hqueue

/-! ## Requests and all tokens -/

theorem tokens_of_next_none (h : l.next = (none, m)) : l.tokens = ([], m) := by
  rw [tokens]
  split <;> rename_i hn <;> rw [h] at hn <;> cases hn
  rfl

theorem tokens_of_next_some (h : l.next = (some t, m)) :
    l.tokens = (t :: m.tokens.1, m.tokens.2) := by
  rw [tokens]
  split <;> rename_i hn <;> rw [h] at hn <;> cases hn
  rfl

/-- A request takes the first of the tokens away, if there is one. -/
theorem tokens_next (l : Lexer) :
    l.next.1 = l.tokens.1.head? ∧ l.next.2.tokens = (l.tokens.1.tail, l.tokens.2) := by
  cases hn : l.next with
  | mk found m =>
    cases found with
    | none =>
      rw [tokens_of_next_none hn, tokens_of_next_none (next_of_next_none hn)]
      exact ⟨rfl, rfl⟩
    | some t =>
      rw [tokens_of_next_some hn]
      exact ⟨rfl, rfl⟩

theorem tokens_after (n : Nat) (l : Lexer) :
    (l.after n).tokens = (l.tokens.1.drop n, l.tokens.2) := by
  induction n generalizing l with
  | zero => rfl
  | succ n ih =>
    show (l.next.2.after n).tokens = _
    rw [ih, (tokens_next l).2, List.drop_tail]

/-- The answers to all requests are the tokens one after the other, and none behind the last. -/
theorem answer_eq_getElem? (n : Nat) (l : Lexer) : l.answer n = l.tokens.1[n]? := by
  unfold answer
  rw [(tokens_next _).1, tokens_after, List.head?_drop]

/-- Requests hand the tokens out from the first one on. -/
theorem handed_eq_take (n : Nat) (l : Lexer) : l.handed n = l.tokens.1.take n := by
  induction n with
  | zero => rfl
  | succ n ih => rw [handed_succ, ih, answer_eq_getElem?, List.take_add_one]

/-! ## Problems -/

/-- A lexer that has given up and has handed its report out stays as it is. -/
theorem GaveUp.after_eq {d : Diagnostic} (h : GaveUp d [] (l.after n)) (hk : n ≤ k) :
    l.after k = l.after n := by
  obtain ⟨j, rfl⟩ := Nat.exists_eq_add_of_le hk
  rw [after_add]
  exact after_eq_self h.next j

/-- Between two requests a clean lexer is clean still, or it has given up and its report was one of
the answers. -/
theorem Clean.after_cases (h : Clean l) (n : Nat) :
    Clean (l.after n) ∨
      ∃ d k, k < n ∧ l.answer k = some (report d) ∧ GaveUp d [] (l.after n) := by
  induction n with
  | zero => exact .inl h
  | succ n ih =>
    have hnext := next_after n l
    rcases ih with clean | ⟨d, k, hk, hanswer, gaveUp⟩
    · cases hfound : l.answer n with
      | none =>
        rw [hfound] at hnext
        exact .inl (clean.next_none hnext)
      | some t =>
        rw [hfound] at hnext
        rcases clean.next_some hnext with ⟨clean', -⟩ | ⟨d, gaveUp, rfl⟩
        · exact .inl clean'
        · exact .inr ⟨d, n, Nat.lt_succ_self n, hfound, gaveUp⟩
    · rw [gaveUp.next] at hnext
      obtain ⟨-, hsame⟩ := Prod.mk.inj hnext
      rw [← hsame]
      exact .inr ⟨d, k, Nat.lt_succ_of_lt hk, hanswer, gaveUp⟩

/-- A lexer that is clean was so before. -/
theorem Clean.of_le (h : Clean l) (hclean : Clean (l.after n)) (hk : k ≤ n) :
    Clean (l.after k) := by
  rcases h.after_cases k with clean | ⟨d, -, -, -, gaveUp⟩
  · exact clean
  · rw [gaveUp.after_eq hk] at hclean
    have herror := gaveUp.error
    rw [hclean.error] at herror
    cases herror

/-- A clean lexer that hands out a report was clean up to then, and has given up. -/
theorem Clean.of_report (h : Clean l) (ht : l.answer n = some t) (he : t.kind = .error) :
    Clean (l.after n) ∧ ∃ d, t = report d ∧ GaveUp d [] (l.after (n + 1)) := by
  have hnext := next_after n l
  rw [ht] at hnext
  rcases h.after_cases n with clean | ⟨d, -, -, -, gaveUp⟩
  · rcases clean.next_some hnext with ⟨-, spoken⟩ | ⟨d, gaveUp, hreport⟩
    · exact (Kind.ne_error_of_isSpoken spoken he).elim
    · exact ⟨clean, d, hreport, gaveUp⟩
  · rw [gaveUp.next] at hnext
    cases hnext

/-- What a lexer answers to requests, and what it says of its problem in between. -/
structure Answers (l : Lexer) : Prop where
  /-- The report of a problem is the last token. -/
  last : ∀ n t, l.answer n = some t → t.kind = .error → ∀ k, n < k → l.answer k = none
  /-- The report has the message of the problem and stands where that does. The lexer has met the
  problem from then on, and before that it has met none. -/
  report : ∀ n t, l.answer n = some t → t.kind = .error →
    ∃ d : Diagnostic, t.text = d.problem.message ∧ t.span = Span.point d.position ∧
      ∀ k, (l.after k).error = if n < k then some d else none
  /-- As long as no report has been handed out, the lexer has met no problem. -/
  clean : ∀ k, (∀ n t, n < k → l.answer n = some t → t.kind ≠ .error) → (l.after k).error = none
  /-- Once the lexer has had no token to give it has none, has the problem that it had, and is left
  as it is: it takes no more runes of its input. -/
  ended : ∀ n, l.answer n = none → ∀ k, n ≤ k →
    l.answer k = none ∧ (l.after k).error = (l.after n).error ∧ l.after (k + 1) = l.after (n + 1)

theorem Clean.answers (h : Clean l) : Answers l where
  last := by
    intro n t ht he k hk
    obtain ⟨-, d, -, gaveUp⟩ := h.of_report ht he
    unfold answer
    rw [gaveUp.after_eq hk, gaveUp.next]
  report := by
    intro n t ht he
    obtain ⟨hclean, d, rfl, gaveUp⟩ := h.of_report ht he
    refine ⟨d, rfl, rfl, fun k => ?_⟩
    by_cases hk : n < k
    · rw [if_pos hk, gaveUp.after_eq hk, gaveUp.error]
    · rw [if_neg hk, (h.of_le hclean (Nat.le_of_not_lt hk)).error]
  clean := by
    intro k hk
    rcases h.after_cases k with clean | ⟨d, n, hn, hanswer, -⟩
    · exact clean.error
    · exact (hk n (Lexer.report d) hn hanswer rfl).elim
  ended := by
    intro n hn k hk
    refine ⟨answer_of_answer_none hn hk, ?_, after_of_answer_none hn (Nat.lt_succ_of_le hk)⟩
    rcases Nat.eq_or_lt_of_le hk with rfl | hlt
    · rfl
    rw [after_of_answer_none hn hlt]
    have hnext := next_after n l
    rw [hn] at hnext
    rcases h.after_cases n with clean | ⟨d, -, -, -, gaveUp⟩
    · rw [clean.error, (clean.next_none hnext).error]
    · rw [gaveUp.next] at hnext
      rw [← (Prod.mk.inj hnext).2]

/-! ## Requests amid more input -/

theorem cursor_next (l : Lexer) : l.next.2.cursor = l.settle.cursor := by
  unfold next
  dsimp only
  split <;> rfl

theorem ended_after (h : l.cursor.ended = true) (n : Nat) : (l.after n).cursor.ended = true := by
  induction n with
  | zero => exact h
  | succ n ih =>
    rw [after_succ, cursor_next]
    exact ended_settle ih

/-- A lexer that has not come to the end of its runes answers as it does with more behind them. -/
theorem after_amid {later : List Char} {told : Bool}
    (h : later = [] ∨ (l.after n).cursor.ended = false) :
    (l.amid [] later told).after n = (l.after n).amid [] later told := by
  induction n with
  | zero => rfl
  | succ n ih =>
    rw [after_succ] at h
    have hn : later = [] ∨ (l.after n).cursor.ended = false := h.imp_right fun he =>
      Bool.eq_false_iff.mpr fun hn => Bool.eq_false_iff.mp he (ended_after hn 1)
    rw [after_succ, ih hn, next_amid h, after_succ]

/-- Two lexers that cannot be told apart by a number of requests: by the answers, and by the problem
that they have met and the runes that they have taken from their inputs in between. -/
structure AlikeFor (n : Nat) (l m : Lexer) : Prop where
  answer : ∀ k, k < n → m.answer k = l.answer k
  error : ∀ k, k ≤ n → (m.after k).error = (l.after k).error
  pulled : ∀ k, k ≤ n → (m.after k).cursor.pulled = (l.after k).cursor.pulled

theorem alikeFor_amid {later : List Char}
    (h : later = [] ∨ (l.after n).cursor.ended = false) :
    AlikeFor n l (l.amid [] later false) := by
  have hle : ∀ k, k ≤ n → later = [] ∨ (l.after k).cursor.ended = false := by
    intro k hk
    refine h.imp_right fun he => Bool.eq_false_iff.mpr fun hk' => Bool.eq_false_iff.mp he ?_
    obtain ⟨j, rfl⟩ := Nat.exists_eq_add_of_le hk
    rw [after_add]
    exact ended_after hk' j
  refine ⟨?_, ?_, ?_⟩
  · intro k hk
    have hnext := hle (k + 1) hk
    rw [after_succ] at hnext
    unfold Lexer.answer
    rw [after_amid (hle k (Nat.le_of_lt hk)), next_amid hnext]
  · intro k hk
    rw [after_amid (hle k hk)]
    rfl
  · intro k hk
    rw [after_amid (hle k hk)]
    rfl

/-- The lexer before an input that has given some answers and may give more. -/
theorem alikeFor_append {answers : List (Option Char)} {file : String}
    (h : none ∈ answers ∨
      ((ofCursor (Cursor.ofAnswers answers) file).after n).cursor.ended = false)
    (more : List (Option Char)) :
    AlikeFor n (ofCursor (Cursor.ofAnswers answers) file)
      (ofCursor (Cursor.ofAnswers (answers ++ more)) file) := by
  by_cases hmem : none ∈ answers
  · unfold Cursor.ofAnswers
    rw [Cursor.untilSilence_append_of_mem hmem]
    exact ⟨fun _ _ => rfl, fun _ _ => rfl, fun _ _ => rfl⟩
  · have hamid : ofCursor (Cursor.ofAnswers (answers ++ more)) file
        = (ofCursor (Cursor.ofAnswers answers) file).amid [] (Cursor.untilSilence more) false := by
      unfold Cursor.ofAnswers
      rw [Cursor.untilSilence_append hmem]
      rfl
    rw [hamid]
    exact alikeFor_amid (.inr (h.resolve_left hmem))

/-! ## All tokens of a source -/

/-- The lexer of a source comes to the end of it, or it gives up and its report is the last token.
That is what there is to the tokens of a source or to the problem that it has. -/
theorem tokenize_cases (source : List Char) (file : String) :
    ((ofRunes source file).tokens.2.error = none ∧
        tokenize source file = .ok ((ofRunes source file).tokens.1
          ++ [Token.endOfInput ⟨source.length, file⟩])) ∨
      ∃ d, (ofRunes source file).tokens.2.error = some d ∧ tokenize source file = .error d := by
  obtain ⟨ts, state, m, n, work, quiet, hts⟩ := tokens_cases source file
  have covers : Covers (ofRunes source file) ts n := by
    simpa using work.covers.trans quiet.covers
  have clean : ∀ t ∈ ts, t.kind ≠ .error := fun t ht =>
    Kind.ne_error_of_isSpoken (work.turns.isSpoken t ht)
  rcases hts with ⟨-, spent, hts⟩ | ⟨problem, hts⟩
  · have herror : n.error = none := quiet.error.trans work.error
    have tiling := tiling_of_spent covers clean spent herror hts
    rw [hts]
    exact .inl ⟨herror, (tiling.blank_after clean).2⟩
  · refine .inr ⟨⟨problem, ⟨n.offset, n.file⟩⟩, ?_, ?_⟩
    · rw [hts]
      rfl
    · unfold tokenize
      rw [hts]
      rfl

/-- Requests enough come to the lexer behind all tokens. -/
theorem exists_after_eq (l : Lexer) : ∃ n, l.after n = l.tokens.2 := by
  refine ⟨l.tokens.1.length + 1, ?_⟩
  have hnone : (l.after l.tokens.1.length).next.1 = none := by
    rw [(tokens_next _).1, tokens_after, List.drop_length]
    rfl
  have htokens := tokens_of_next_none (Prod.ext hnone rfl : (l.after _).next = (none, _))
  rw [tokens_after] at htokens
  rw [after_succ]
  exact (Prod.mk.inj htokens).2.symm

/-- The problem of a clean lexer after some requests is the one that it has behind all tokens. -/
theorem Clean.error_tokens {d : Diagnostic} (h : Clean l) (hd : (l.after n).error = some d) :
    l.tokens.2.error = some d := by
  rcases h.after_cases n with clean | ⟨e, -, -, -, gaveUp⟩
  · rw [clean.error] at hd
    cases hd
  · have htokens := tokens_of_next_none gaveUp.next
    rw [tokens_after] at htokens
    rw [(Prod.mk.inj htokens).2, hd]

end Lexer

/-- Whatever a lexer reads, and however often it is asked for a token: its answers hold at most one
report of a problem and nothing behind that. Its problem is none up to the request that hands the
report out, and from then on it is the one that the report is about. Once it had no token to give,
nothing changes any more. What the input would give beyond what it has been asked for, or after it
gave none, makes no difference to all that. And a source is taken apart into its tokens, with the
end of the input behind them, unless its lexer meets a problem, which is then the result. -/
theorem problem_keeps_step (file : String) :
    (∀ answers : List (Option Char),
      (Lexer.ofCursor (Cursor.ofAnswers answers) file).Answers) ∧
    (∀ (answers more : List (Option Char)) (n : Nat),
      (none ∈ answers ∨
        ((Lexer.ofCursor (Cursor.ofAnswers answers) file).after n).cursor.ended = false) →
      Lexer.AlikeFor n (Lexer.ofCursor (Cursor.ofAnswers answers) file)
        (Lexer.ofCursor (Cursor.ofAnswers (answers ++ more)) file)) ∧
    ∀ source : List Char, (Lexer.ofRunes source file).Answers ∧
      (∀ n, (Lexer.ofRunes source file).answer n = (Lexer.ofRunes source file).tokens.1[n]?) ∧
      (∀ n d, ((Lexer.ofRunes source file).after n).error = some d →
        tokenize source file = .error d) ∧
      ((∀ n, ((Lexer.ofRunes source file).after n).error = none) →
        tokenize source file = .ok ((Lexer.ofRunes source file).tokens.1
          ++ [Token.endOfInput ⟨source.length, file⟩])) := by
  refine ⟨?_, fun answers more n h => Lexer.alikeFor_append h more, fun source => ?_⟩
  · intro answers
    exact (Lexer.clean_ofRunes (Cursor.untilSilence answers) file).answers
  have clean := Lexer.clean_ofRunes source file
  refine ⟨clean.answers, fun n => Lexer.answer_eq_getElem? n _, ?_, ?_⟩
  · intro n d hd
    have herror := clean.error_tokens hd
    rcases Lexer.tokenize_cases source file with ⟨hnone, -⟩ | ⟨e, hsome, htokenize⟩
    · rw [hnone] at herror
      cases herror
    · rw [hsome] at herror
      cases herror
      exact htokenize
  · intro hnone
    obtain ⟨n, hn⟩ := Lexer.exists_after_eq (Lexer.ofRunes source file)
    have herror := hnone n
    rw [hn] at herror
    rcases Lexer.tokenize_cases source file with ⟨-, htokenize⟩ | ⟨e, hsome, -⟩
    · exact htokenize
    · rw [hsome] at herror
      cases herror

end ExprYard
