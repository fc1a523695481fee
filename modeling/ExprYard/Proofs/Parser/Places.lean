import ExprYard.Proofs.Parser.Reports

/-!
# Where a parser fails

A parser fails at a token that it was given: the closing parenthesis that it takes in, or one that
still waits. So whatever holds of the positions of all tokens holds of the position of the failure:
`Placed` is what a parser keeps of that, and `Lands` is what each step comes to.
-/

namespace ExprYard

namespace Parser

/-- The positions of all that waits, and of all that was reported, have a property. -/
structure Placed (P : Position → Prop) (p : Parser) : Prop where
  pending : ∀ m ∈ p.pending, P m.token.position
  diagnostics : ∀ d ∈ p.diagnostics, P d.position

/-- A step leaves a parser with such positions, and if it fails it does so at one. -/
structure Lands (P : Position → Prop) (o : Outcome) : Prop where
  parser : o.1.Placed P
  failure : ∀ d ∈ o.2, P d.position

variable {P : Position → Prop} {p q : Parser} {token : Token} {m : Marker}
  {markers : List Marker}

theorem placed_empty : empty.Placed P where
  pending := fun _ hm => nomatch hm
  diagnostics := fun _ hd => nomatch hd

theorem Placed.lands (h : p.Placed P) : Lands P (p, none) where
  parser := h
  failure := fun _ hd => nomatch hd

theorem Placed.fails {d : Diagnostic} (h : p.Placed P) (hd : P d.position) :
    Lands P (p, some d) where
  parser := h
  failure := by
    intro e he
    cases he
    exact hd

/-- A parser that waits for less. -/
theorem Placed.await_less (h : p.Placed P) (hm : ∀ m ∈ markers, P m.token.position) :
    ({ p with pending := markers } : Parser).Placed P :=
  ⟨hm, h.diagnostics⟩

theorem Placed.await (h : p.Placed P) (hm : P m.token.position) : (p.await m).Placed P where
  pending := List.forall_mem_cons.mpr ⟨hm, h.pending⟩
  diagnostics := h.diagnostics

theorem Placed.report {d : Diagnostic} (h : p.Placed P) (hd : P d.position) :
    (p.report d).Placed P where
  pending := h.pending
  diagnostics := List.forall_mem_append.mpr ⟨h.diagnostics, List.forall_mem_singleton.mpr hd⟩

/-- What holds of all markers holds of the latest, and of those that wait without it. -/
theorem Placed.latest (h : p.Placed P) (hp : p.pending = m :: markers) :
    P m.token.position ∧ ∀ m ∈ markers, P m.token.position := by
  have hall := h.pending
  rw [hp] at hall
  exact List.forall_mem_cons.mp hall

theorem Reduces.placed (h : Reduces p q) (hp : p.Placed P) : q.Placed P := by
  cases h with
  | fold pending => exact ⟨(hp.latest pending).2, hp.diagnostics⟩

/-- A walk fails at a marker that waited, or at its end. -/
theorem Walks.lands {End : Parser → Outcome → Prop} {o : Outcome} (hw : Walks End p o)
    (hp : p.Placed P) (hend : ∀ {q : Parser} {o : Outcome}, End q o → q.Placed P → Lands P o) :
    Lands P o := by
  refine hw.keeps (J := Lands P) hp (fun hr => hr.placed) hend ?_
  intro q m ms pending _ hq
  obtain ⟨hm, hms⟩ := hq.latest pending
  exact (hq.await_less hms).fails hm

theorem Ends.lands {o : Outcome} (h : Ends p o) (hp : p.Placed P) : Lands P o := by
  cases h with
  | done => exact Placed.lands ⟨hp.pending, hp.diagnostics⟩
  | unclosed pending =>
    obtain ⟨hm, hms⟩ := hp.latest pending
    exact (hp.await_less hms).fails hm

theorem Arrives.lands {o : Outcome} (h : Arrives token p o) (hp : p.Placed P)
    (ht : P token.position) : Lands P o := by
  cases h with
  | unread => exact hp.lands
  | lexical | refused => exact (hp.report ht).lands
  | operand => exact Placed.lands ⟨hp.pending, hp.diagnostics⟩
  | marker h =>
    rw [← h.token_eq] at ht
    exact Placed.lands (hp.await ht)
  | value _ pending => exact Placed.lands ⟨(hp.latest pending).2, hp.diagnostics⟩
  | argument _ pending =>
    obtain ⟨-, hms⟩ := List.forall_mem_cons.mp (hp.latest pending).2
    exact Placed.lands ⟨hms, hp.diagnostics⟩
  | unreached _ pending =>
    obtain ⟨hcall, hms⟩ := List.forall_mem_cons.mp (hp.latest pending).2
    exact Placed.fails ⟨hms, hp.diagnostics⟩ hcall
  | unopened =>
    have htail : ∀ m ∈ p.pending.tail, P m.token.position := fun m hm =>
      hp.pending m (List.mem_of_mem_tail hm)
    exact (hp.await_less htail).fails ht
  | semicolon _ h => exact h.lands hp

theorem lands_drain (h : p.Placed P) : Lands P p.drain :=
  (drain_walks p).lands h fun he => he.lands

/-- A parser that takes a token in fails, if it does, at that token or at an earlier one. -/
theorem lands_push (h : p.Placed P) (ht : P token.position) : Lands P (p.push token) :=
  (push_walks token p).lands h fun ha hp => ha.lands hp ht

end Parser

namespace Intake

variable {P : Position → Prop}

/-- An intake that is fed tokens with such positions keeps to them. -/
theorem lands_feed {ts : List Token} {i : Intake} (h : Parser.Lands P (i.parser, i.failure))
    (ht : ∀ t ∈ ts, P t.position) :
    Parser.Lands P ((sink.feed i ts).parser, (sink.feed i ts).failure) := by
  induction ts generalizing i with
  | nil => exact h
  | cons t ts ih =>
    obtain ⟨hhead, hrest⟩ := List.forall_mem_cons.mp ht
    unfold Sink.feed
    split
    · exact ih (Parser.lands_push h.parser hhead) hrest
    · exact h

/-- Tokens that come to a failure come to one at a position of theirs. -/
theorem place_of_conclude {ts : List Token} {d : Diagnostic} (ht : ∀ t ∈ ts, P t.position)
    (h : (sink.feed start ts).conclude.2 = .error d) : P d.position := by
  have hfed := lands_feed (i := start) Parser.placed_empty.lands ht
  generalize sink.feed start ts = i at hfed h
  unfold conclude at h
  split at h
  · rename_i failure heq
    cases h
    exact hfed.failure d heq
  · have hdrain := Parser.lands_drain hfed.parser
    have hreported := Parser.finish_diagnostics i.parser
    dsimp only at h
    split at h
    · unfold Parser.finish at h
      split at h
      · cases h
      · rename_i q failure heq
        cases h
        rw [heq] at hdrain
        exact hdrain.failure d rfl
    · rename_i reported rest heq
      cases h
      rw [hreported] at heq
      exact hfed.parser.diagnostics d (heq ▸ List.mem_cons_self)

end Intake

end ExprYard
