import ExprYard.Pipeline.Network
import ExprYard.Proofs.Lexer.Runs

/-!
# A pipeline comes to what one worker would have come to

No pipeline gets stuck: as long as one of its workers has not stopped, some move is possible
(`isOver_or_move`). And whichever moves are made, what the consumer has made of the tokens at the
end is what it makes of them where the lexer works on request and has the whole source before it
(`over_of_reaches`). The problem that the lexer leaves behind is the same too, but for one thing: a
consumer that has enough stops while the lexer is already at its next token, so the lexer is then
one request further.

What a move can do is said once, by `Moves`. `Network.Agrees` is the invariant behind the rest. The
lexer of a pipeline, with the runes that it has not heard put behind those that it has (`outlook`),
would go on to do what is still to be done.
-/

namespace ExprYard

namespace Lexer

variable {σ : Type}

/-- The lexer with the runes that are still to come in front of it. -/
def outlook (unsent : List Char) (l : Lexer) : Lexer :=
  l.amid [] unsent true

theorem outlook_hear (r : Char) (unsent : List Char) (l : Lexer) :
    (l.hear r).outlook unsent = l.outlook (r :: unsent) := by
  simp [outlook, amid, hear, Cursor.amid]

theorem outlook_hearEnd (unsent : List Char) (l : Lexer) :
    l.hearEnd.outlook unsent = l.outlook unsent := by
  simp [outlook, amid, hearEnd, Cursor.amid]

/-- A lexer that has its next token in what it has heard finds the same with the rest in front of
it. -/
theorem next_outlook {unsent : List Char} {l : Lexer}
    (h : unsent = [] ∨ l.next.2.cursor.ended = false) :
    (l.outlook unsent).next = (l.next.1, l.next.2.outlook unsent) :=
  next_amid h

/-- With nothing in front of it, a lexer is as if the end had been announced. -/
theorem next_outlook_nil (l : Lexer) :
    (l.outlook []).next = (l.next.1, l.next.2.outlook []) :=
  next_outlook (.inl rfl)

theorem drain_of_not_wants {sink : Sink σ} {s : σ} (l : Lexer) (h : sink.wants s = false) :
    l.drain sink s = (s, l) := by
  rw [drain, h]
  rfl

theorem drain_of_next_none {sink : Sink σ} {s : σ} {l m : Lexer} (h : sink.wants s = true)
    (hn : l.next = (none, m)) : l.drain sink s = (s, m) := by
  rw [drain, if_pos h]
  split <;> rename_i hk <;> rw [hn] at hk <;> cases hk
  rfl

theorem drain_of_next_some {sink : Sink σ} {s : σ} {l m : Lexer} {t : Token}
    (h : sink.wants s = true) (hn : l.next = (some t, m)) :
    l.drain sink s = m.drain sink (sink.accept s t) := by
  rw [drain, if_pos h]
  split <;> rename_i hk <;> rw [hn] at hk <;> cases hk
  rfl

/-- Whether the end of the input has been announced makes no difference to what a sink is fed. -/
theorem drain_outlook (sink : Sink σ) (s : σ) (l : Lexer) :
    (l.outlook []).drain sink s = ((l.drain sink s).1, (l.drain sink s).2.outlook []) := by
  fun_induction drain sink s l with
  | case1 s l hw m h =>
    have hn := next_outlook_nil l
    rw [h] at hn
    exact drain_of_next_none hw hn
  | case2 s l hw t m h ih =>
    have hn := next_outlook_nil l
    rw [h] at hn
    rw [drain_of_next_some hw hn]
    exact ih
  | case3 s l hw => exact drain_of_not_wants _ (by simpa using hw)

end Lexer

/-- Whether the lexer of a pipeline has stopped. -/
def Stage.isStopped : Stage → Bool
  | .stopped _ => true
  | _ => false

namespace Network

variable {σ : Type} {sink : Sink σ} {n m : Network σ}

/-! ## What a move does -/

/-- What becomes of a network when something happens, one case for each outcome of a move. -/
inductive Moves (sink : Sink σ) : Network σ → Move → Network σ → Prop where
  | handRune {r : Char} {unsent : List Char} {l : Lexer} {s : σ} {consuming : Bool}
      (waits : l.waits = true) :
      Moves sink ⟨r :: unsent, true, .scanning l, s, consuming⟩ .handRune
        ⟨unsent, true, .scanning (l.hear r), s, consuming⟩
  | exhaust {stage : Stage} {s : σ} {consuming : Bool} :
      Moves sink ⟨[], true, stage, s, consuming⟩ .exhaust ⟨[], false, stage, s, consuming⟩
  | abandon {unsent : List Char} {error : Option Diagnostic} {s : σ} {consuming : Bool}
      (more : unsent ≠ []) :
      Moves sink ⟨unsent, true, .stopped error, s, consuming⟩ .abandon
        ⟨unsent, false, .stopped error, s, consuming⟩
  | closeRunes {unsent : List Char} {l : Lexer} {s : σ} {consuming : Bool}
      (waits : l.waits = true) :
      Moves sink ⟨unsent, false, .scanning l, s, consuming⟩ .closeRunes
        ⟨unsent, false, .scanning l.hearEnd, s, consuming⟩
  | find {unsent : List Char} {producing : Bool} {l m : Lexer} {t : Token} {s : σ}
      {consuming : Bool} (ready : l.waits = false) (found : l.next = (some t, m)) :
      Moves sink ⟨unsent, producing, .scanning l, s, consuming⟩ .scan
        ⟨unsent, producing, .offering t m, s, consuming⟩
  | miss {unsent : List Char} {producing : Bool} {l m : Lexer} {s : σ} {consuming : Bool}
      (ready : l.waits = false) (missed : l.next = (none, m)) :
      Moves sink ⟨unsent, producing, .scanning l, s, consuming⟩ .scan
        ⟨unsent, producing, .stopped m.error, s, consuming⟩
  | handToken {unsent : List Char} {producing : Bool} {t : Token} {l : Lexer} {s : σ}
      (wants : sink.wants s = true) :
      Moves sink ⟨unsent, producing, .offering t l, s, true⟩ .handToken
        ⟨unsent, producing, .scanning l, sink.accept s t, true⟩
  | refuse {unsent : List Char} {producing : Bool} {t : Token} {l : Lexer} {s : σ} :
      Moves sink ⟨unsent, producing, .offering t l, s, false⟩ .refuse
        ⟨unsent, producing, .stopped l.error, s, false⟩
  | suffice {unsent : List Char} {producing : Bool} {stage : Stage} {s : σ}
      (enough : sink.wants s = false) :
      Moves sink ⟨unsent, producing, stage, s, true⟩ .suffice ⟨unsent, producing, stage, s, false⟩
  | closeTokens {unsent : List Char} {producing : Bool} {error : Option Diagnostic} {s : σ}
      (wants : sink.wants s = true) :
      Moves sink ⟨unsent, producing, .stopped error, s, true⟩ .closeTokens
        ⟨unsent, producing, .stopped error, s, false⟩

/-- A move does one of these things. -/
theorem moves_of_move {a : Move} (h : n.move sink a = some m) : Moves sink n a m := by
  obtain ⟨unsent, producing, stage, s, consuming⟩ := n
  unfold move at h
  cases a with
  | handRune =>
    dsimp only at h
    split at h
    · split at h <;> cases h
      rename_i hw
      obtain ⟨rfl, hw⟩ := Bool.and_eq_true_iff.mp hw
      exact .handRune hw
    · cases h
  | exhaust =>
    dsimp only at h
    split at h <;> cases h
    rename_i hp
    obtain ⟨rfl, hu⟩ := Bool.and_eq_true_iff.mp hp
    cases List.isEmpty_iff.mp hu
    exact .exhaust
  | abandon =>
    dsimp only at h
    split at h
    · split at h <;> cases h
      rename_i hp
      obtain ⟨rfl, hu⟩ := Bool.and_eq_true_iff.mp hp
      exact .abandon (by simpa using hu)
    · cases h
  | closeRunes =>
    dsimp only at h
    split at h
    · split at h <;> cases h
      rename_i hw
      obtain ⟨hp, hw⟩ := Bool.and_eq_true_iff.mp hw
      have hp : producing = false := by simpa using hp
      subst hp
      exact .closeRunes hw
    · cases h
  | scan =>
    dsimp only at h
    split at h
    · split at h
      · cases h
      · rename_i hw
        have ready := Bool.eq_false_iff.mpr hw
        split at h <;> cases h
        · rename_i t m hn
          exact .find ready hn
        · rename_i m hn
          exact .miss ready hn
    · cases h
  | handToken =>
    dsimp only at h
    split at h
    · split at h <;> cases h
      rename_i hw
      obtain ⟨rfl, hw⟩ := Bool.and_eq_true_iff.mp hw
      exact .handToken hw
    · cases h
  | refuse =>
    dsimp only at h
    split at h
    · split at h <;> cases h
      rename_i hc
      cases Bool.eq_false_iff.mpr hc
      exact .refuse
    · cases h
  | suffice =>
    dsimp only at h
    split at h <;> cases h
    rename_i hw
    obtain ⟨rfl, hw⟩ := Bool.and_eq_true_iff.mp hw
    exact .suffice (by simpa using hw)
  | closeTokens =>
    dsimp only at h
    split at h
    · split at h <;> cases h
      rename_i hw
      obtain ⟨rfl, hw⟩ := Bool.and_eq_true_iff.mp hw
      exact .closeTokens hw
    · cases h

/-- Each of these things can happen. -/
theorem move_of_moves {a : Move} (h : Moves sink n a m) : n.move sink a = some m := by
  cases h with
  | handRune waits => simp [move, waits]
  | exhaust => rfl
  | abandon more => simp [move, more]
  | closeRunes waits => simp [move, waits]
  | find ready found => simp [move, ready, found]
  | miss ready missed => simp [move, ready, missed]
  | handToken wants => simp [move, wants]
  | refuse => rfl
  | suffice enough => simp [move, enough]
  | closeTokens wants => simp [move, wants]

/-! ## No network gets stuck -/

/-- Something can happen in a network unless all of its workers have stopped. -/
theorem isOver_or_move (sink : Sink σ) (n : Network σ) :
    n.isOver = true ∨ ∃ a m, n.move sink a = some m := by
  suffices h : n.isOver = true ∨ ∃ a m, Moves sink n a m from
    h.imp_right fun ⟨a, m, hm⟩ => ⟨a, m, move_of_moves hm⟩
  obtain ⟨unsent, producing, stage, s, consuming⟩ := n
  cases stage with
  | scanning l =>
    right
    by_cases hw : l.waits = true
    · cases producing with
      | false => exact ⟨_, _, .closeRunes hw⟩
      | true =>
        cases unsent with
        | nil => exact ⟨_, _, .exhaust⟩
        | cons r unsent => exact ⟨_, _, .handRune hw⟩
    · have ready := Bool.eq_false_iff.mpr hw
      cases hn : l.next with
      | mk found m =>
        cases found with
        | none => exact ⟨_, _, .miss ready hn⟩
        | some t => exact ⟨_, _, .find ready hn⟩
  | offering t l =>
    right
    cases consuming with
    | false => exact ⟨_, _, .refuse⟩
    | true =>
      by_cases hw : sink.wants s = true
      · exact ⟨_, _, .handToken hw⟩
      · exact ⟨_, _, .suffice (Bool.eq_false_iff.mpr hw)⟩
  | stopped error =>
    cases producing with
    | true =>
      right
      cases unsent with
      | nil => exact ⟨_, _, .exhaust⟩
      | cons r unsent => exact ⟨_, _, .abandon (List.cons_ne_nil r unsent)⟩
    | false =>
      cases consuming with
      | false => exact .inl rfl
      | true =>
        right
        by_cases hw : sink.wants s = true
        · exact ⟨_, _, .closeTokens hw⟩
        · exact ⟨_, _, .suffice (Bool.eq_false_iff.mpr hw)⟩

/-- A run goes on until all workers have stopped. -/
theorem isOver_run (sink : Sink σ) (n : Network σ) : (n.run sink).isOver = true := by
  obtain ⟨-, stuck⟩ := reaches_run sink n
  rcases isOver_or_move sink (n.run sink) with hover | ⟨a, m, hm⟩
  · exact hover
  · rw [stuck a] at hm
    cases hm

/-- No order of moves goes on forever. -/
theorem exists_no_move (f : Nat → Network σ) : ∃ k, ∀ a, (f k).move sink a ≠ some (f (k + 1)) := by
  suffices h : ∀ (bound k : Nat), (f k).measure ≤ bound →
      ∃ k, ∀ a, (f k).move sink a ≠ some (f (k + 1)) from h (f 0).measure 0 (Nat.le_refl _)
  intro bound
  induction bound with
  | zero =>
    intro k hk
    refine ⟨k, fun a ha => ?_⟩
    have := measure_move_lt ha
    omega
  | succ bound ih =>
    intro k hk
    by_cases hs : ∃ a, (f k).move sink a = some (f (k + 1))
    · obtain ⟨a, ha⟩ := hs
      have := measure_move_lt ha
      exact ih (k + 1) (by omega)
    · exact ⟨k, fun a ha => hs ⟨a, ha⟩⟩

/-! ## What is still to be done -/

/-- What the stage of a network knows of the work that one worker would still have to do, given by a
lexer `v` before its next request. -/
inductive At (sink : Sink σ) (n : Network σ) (v : Lexer) : Stage → Prop where
  | scanning {l : Lexer} (view : v = l.outlook n.unsent)
      (heard : l.cursor.ended = true ∨ n.producing = false → n.unsent = []) :
      At sink n v (.scanning l)
  | offering {t : Token} {l : Lexer} (view : v.next = (some t, l.outlook n.unsent))
      (heard : l.cursor.ended = true ∨ n.producing = false → n.unsent = []) :
      At sink n v (.offering t l)
  | stopped {error : Option Diagnostic} (view : v.next.2.error = error)
      (done : v.next.1 = none ∨ sink.wants n.state = false) : At sink n v (.stopped error)

/-- The invariant of a network: what is still to be done comes to `goal`, and the consumer has not
stopped for nothing. -/
structure Agrees (sink : Sink σ) (goal : σ × Lexer) (n : Network σ) : Prop where
  work : ∃ v : Lexer, v.drain sink n.state = goal ∧ At sink n v n.stage
  consumer : n.consuming = false → sink.wants n.state = false ∨ n.stage.isStopped = true

/-- Where the lexer has not stopped, a consumer that has stopped had enough. -/
theorem wants_of_busy {s : σ} {stage : Stage} (h : sink.wants s = false ∨ stage.isStopped = true)
    (hs : stage.isStopped = false) : sink.wants s = false := by
  rcases h with h | h
  · exact h
  · rw [hs] at h
    cases h

theorem agrees_start (sink : Sink σ) (source : List Char) (file : String) (s : σ) :
    Agrees sink (((Lexer.ofRunes source file).outlook []).drain sink s) (start source file s) where
  work := by
    refine ⟨_, rfl, .scanning ?_ ?_⟩
    · simp [Lexer.outlook, Lexer.amid, Cursor.amid, start, Lexer.ofRunes, Lexer.ofCursor,
        Cursor.ofRunes]
    · rintro (h | h) <;> cases h
  consumer := by
    intro h
    cases h

/-- A lexer that does not wait has its next token in what it has heard. -/
theorem next_of_not_waits {unsent : List Char} {v l : Lexer} (view : v = l.outlook unsent)
    (heard : l.cursor.ended = true → unsent = []) (ready : l.waits = false) :
    (l.next.2.cursor.ended = true → unsent = []) ∧
      v.next = (l.next.1, l.next.2.outlook unsent) := by
  have hw : l.cursor.ended = true ∨ l.next.2.cursor.ended = false := by
    unfold Lexer.waits at ready
    cases he : l.cursor.ended with
    | true => exact .inl rfl
    | false =>
      rw [he] at ready
      exact .inr ready
  refine ⟨?_, ?_⟩
  · intro he
    refine heard (hw.resolve_right ?_)
    rw [he]
    exact nofun
  · rw [view]
    exact Lexer.next_outlook (hw.imp_left heard)

/-- Every move keeps to what is still to be done. -/
theorem agrees_move {goal : σ × Lexer} {a : Move} (h : Agrees sink goal n)
    (hm : n.move sink a = some m) : Agrees sink goal m := by
  obtain ⟨⟨v, hv, stage⟩, consumer⟩ := h
  cases moves_of_move hm with
  | @handRune r unsent l s consuming waits =>
    cases stage with
    | scanning view heard =>
      refine ⟨⟨v, hv, .scanning ?_ ?_⟩, fun hc => .inl (wants_of_busy (consumer hc) rfl)⟩
      · rw [view]
        exact (Lexer.outlook_hear r unsent l).symm
      · intro he
        cases heard he
  | exhaust =>
    refine ⟨⟨v, hv, ?_⟩, consumer⟩
    cases stage with
    | scanning view heard => exact .scanning view fun _ => rfl
    | offering view heard => exact .offering view fun _ => rfl
    | stopped view done => exact .stopped view done
  | abandon =>
    cases stage with
    | stopped view done => exact ⟨⟨v, hv, .stopped view done⟩, consumer⟩
  | @closeRunes unsent l s consuming waits =>
    cases stage with
    | scanning view heard =>
      refine ⟨⟨v, hv, .scanning ?_ fun _ => heard (.inr rfl)⟩,
        fun hc => .inl (wants_of_busy (consumer hc) rfl)⟩
      rw [view]
      exact (Lexer.outlook_hearEnd unsent l).symm
  | @find unsent producing l m t s consuming ready found =>
    cases stage with
    | scanning view heard =>
      obtain ⟨heard', hnext⟩ := next_of_not_waits view (fun he => heard (.inl he)) ready
      rw [found] at heard' hnext
      refine ⟨⟨v, hv, .offering hnext ?_⟩, fun hc => .inl (wants_of_busy (consumer hc) rfl)⟩
      rintro (he | hp)
      · exact heard' he
      · exact heard (.inr hp)
  | @miss unsent producing l m s consuming ready missed =>
    cases stage with
    | scanning view heard =>
      obtain ⟨-, hnext⟩ := next_of_not_waits view (fun he => heard (.inl he)) ready
      rw [missed] at hnext
      refine ⟨⟨v, hv, .stopped ?_ (.inl ?_)⟩, fun _ => .inr rfl⟩
      · rw [hnext]
        rfl
      · rw [hnext]
  | handToken wants =>
    cases stage with
    | offering view heard =>
      refine ⟨⟨_, ?_, .scanning rfl heard⟩, fun hc => by cases hc⟩
      rw [← hv]
      exact (Lexer.drain_of_next_some wants view).symm
  | refuse =>
    cases stage with
    | offering view heard =>
      refine ⟨⟨v, hv, .stopped ?_ (.inr ?_)⟩, fun _ => .inr rfl⟩
      · rw [view]
        rfl
      · exact wants_of_busy (consumer rfl) rfl
  | suffice enough =>
    refine ⟨⟨v, hv, ?_⟩, fun _ => .inl enough⟩
    cases stage with
    | scanning view heard => exact .scanning view heard
    | offering view heard => exact .offering view heard
    | stopped view done => exact .stopped view done
  | closeTokens =>
    refine ⟨⟨v, hv, ?_⟩, fun _ => .inr rfl⟩
    cases stage with
    | stopped view done => exact .stopped view done

theorem agrees_of_reaches {goal : σ × Lexer} (h : Reaches sink n m) (hn : Agrees sink goal n) :
    Agrees sink goal m := by
  induction h with
  | refl n => exact hn
  | step a first rest ih => exact ih (agrees_move hn first)

/-- A network that is over has come to what is to be done, and its lexer has met the problem that
one worker meets, asked once more if the consumer had enough. -/
theorem over_of_agrees {goal : σ × Lexer} (h : Agrees sink goal n) (ho : n.isOver = true) :
    n.state = goal.1 ∧
      n.error = if sink.wants goal.1 then goal.2.error else goal.2.next.2.error := by
  obtain ⟨⟨v, hv, stage⟩, -⟩ := h
  unfold isOver at ho
  unfold error
  split at ho
  · rename_i err hs
    rw [hs] at stage
    cases stage with
    | stopped view done =>
      by_cases hw : sink.wants n.state = true
      · have hn : v.next.1 = none := by
          rcases done with hn | hn
          · exact hn
          · rw [hw] at hn
            cases hn
        have hd := Lexer.drain_of_next_none (m := v.next.2) hw (Prod.ext hn rfl)
        rw [← hv, hd]
        exact ⟨rfl, by rw [if_pos hw, view]⟩
      · have hd := Lexer.drain_of_not_wants v (Bool.not_eq_true _ ▸ hw)
        rw [← hv, hd]
        exact ⟨rfl, by rw [if_neg hw, view]⟩
  · cases ho

/-- Whichever moves lead a network to its end, its consumer has made of the tokens of the source
what it makes of them one request at a time. -/
theorem over_of_reaches {source : List Char} {file : String} {s : σ}
    (h : Reaches sink (start source file s) n) (ho : n.isOver = true) :
    let drained := (Lexer.ofRunes source file).drain sink s
    n.state = drained.1 ∧
      n.error = if sink.wants drained.1 then drained.2.error else drained.2.next.2.error := by
  have hover := over_of_agrees (agrees_of_reaches h (agrees_start sink source file s)) ho
  rw [Lexer.drain_outlook] at hover
  refine ⟨hover.1, hover.2.trans ?_⟩
  rw [Lexer.next_outlook_nil]
  rfl

end Network

end ExprYard
