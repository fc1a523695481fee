import ExprYard.Lexer.Run

/-!
# Networks

A pipeline is three workers in a row: a producer has the runes of a source, a lexer turns runes into
tokens, and a consumer is a sink for the tokens. They work side by side, and what one hands over the
next takes at that moment: a worker that hands over waits until it is taken, and a worker that takes
waits until it is handed something. When a worker stops, the one before it can no longer hand
anything over and the one after it is told that nothing more will come; either of them stops in
turn.

A `Network` is a moment in the work of the three, and a `Move` is the next thing that one of them
may do, or two of them do together. Which move comes first is not determined: `move` says what each
does where it is possible, and `run` makes one choice, the first possible move in the order of
`Move.all`. Every move lowers the network's `measure`, so no choice of moves goes on forever.

The lexer takes a rune only when it needs one. Whether it does is seen by letting it work on what it
has heard so far: it needs another rune when that brings it to the end of what it has heard.
-/

namespace ExprYard

namespace Lexer

/-- The lexer once the input has given one more rune. -/
def hear (r : Char) (l : Lexer) : Lexer :=
  { l with cursor := { l.cursor with feed := l.cursor.feed ++ [r] } }

/-- The lexer once the input has said that it has no more runes. -/
def hearEnd (l : Lexer) : Lexer :=
  { l with cursor := { l.cursor with ended := true } }

/-- Whether the next token, or the certainty that there is none, takes more of the input than has
been heard. -/
def waits (l : Lexer) : Bool :=
  !l.cursor.ended && l.next.2.cursor.ended

theorem remaining_hear (r : Char) (l : Lexer) :
    (l.hear r).cursor.remaining = l.cursor.remaining ++ [r] := by
  simp [hear, Cursor.remaining]

theorem potential_hear (r : Char) (l : Lexer) : (l.hear r).potential = l.potential + 13 := by
  have hs : (l.hear r).stock = l.stock + 13 := by
    have ht : (l.hear r).taken = l.taken := rfl
    rw [stock, stock, remaining_hear, ht, List.length_append, List.length_singleton]
    omega
  have hq : (l.hear r).queue = l.queue := rfl
  have hw : (l.hear r).state = l.state := rfl
  rw [potential, potential, hs, hq, hw]
  omega

theorem potential_hearEnd (l : Lexer) : l.hearEnd.potential = l.potential := rfl

theorem not_ended_of_waits {l : Lexer} (h : l.waits = true) : l.cursor.ended = false := by
  simp only [waits, Bool.and_eq_true, Bool.not_eq_true'] at h
  exact h.1

end Lexer

/-- What the lexer of a pipeline is at. -/
inductive Stage where
  /-- It looks for its next token, and takes runes where it needs them. -/
  | scanning (l : Lexer)
  /-- It hands a token over. -/
  | offering (t : Token) (l : Lexer)
  /-- It has stopped; the problem it had met by then, if any, is its result. -/
  | stopped (error : Option Diagnostic)
deriving DecidableEq

/-- A moment in the work of a pipeline whose consumer has states `σ`. -/
structure Network (σ : Type) where
  /-- The runes that the producer has not handed over. -/
  unsent : List Char
  /-- Whether the producer is at work. -/
  producing : Bool
  stage : Stage
  /-- What the consumer has made of the tokens so far. -/
  state : σ
  /-- Whether the consumer is at work. -/
  consuming : Bool

/-- The next thing to happen in a pipeline. -/
inductive Move where
  /-- The lexer, in need of a rune, takes one from the producer. -/
  | handRune
  /-- The producer, out of runes, stops. -/
  | exhaust
  /-- The producer, with no lexer to take its runes, stops. -/
  | abandon
  /-- The lexer, in need of a rune, is told that there are no more. -/
  | closeRunes
  /-- The lexer, not in need of a rune, finds its next token or stops for want of one. -/
  | scan
  /-- The consumer takes a token from the lexer. -/
  | handToken
  /-- The lexer, with no consumer to take its token, stops. -/
  | refuse
  /-- The consumer, with enough tokens, stops. -/
  | suffice
  /-- The consumer is told that there are no more tokens, and stops. -/
  | closeTokens
deriving DecidableEq

/-- Every move, once, in the order in which `Network.run` looks for a possible one. -/
def Move.all : List Move :=
  [scan, handRune, handToken, suffice, exhaust, closeRunes, closeTokens, refuse, abandon]

namespace Network

variable {σ : Type}

/-- The three workers before they start. -/
def start (source : List Char) (file : String) (state : σ) : Network σ :=
  ⟨source, true, .scanning (Lexer.ofRunes [] file), state, true⟩

/-- The network after a move, or `none` where the move is not possible. -/
def move (sink : Sink σ) (n : Network σ) : Move → Option (Network σ)
  | .handRune =>
    match n.unsent, n.stage with
    | r :: unsent, .scanning l =>
      if n.producing && l.waits then some { n with unsent, stage := .scanning (l.hear r) }
      else none
    | _, _ => none
  | .exhaust =>
    if n.producing && n.unsent.isEmpty then some { n with producing := false } else none
  | .abandon =>
    match n.stage with
    | .stopped _ =>
      if n.producing && !n.unsent.isEmpty then some { n with producing := false } else none
    | _ => none
  | .closeRunes =>
    match n.stage with
    | .scanning l =>
      if !n.producing && l.waits then some { n with stage := .scanning l.hearEnd } else none
    | _ => none
  | .scan =>
    match n.stage with
    | .scanning l =>
      if l.waits then none
      else match l.next with
        | (some t, m) => some { n with stage := .offering t m }
        | (none, m) => some { n with stage := .stopped m.error }
    | _ => none
  | .handToken =>
    match n.stage with
    | .offering t l =>
      if n.consuming && sink.wants n.state then
        some { n with stage := .scanning l, state := sink.accept n.state t }
      else none
    | _ => none
  | .refuse =>
    match n.stage with
    | .offering _ l => if n.consuming then none else some { n with stage := .stopped l.error }
    | _ => none
  | .suffice =>
    if n.consuming && !sink.wants n.state then some { n with consuming := false } else none
  | .closeTokens =>
    match n.stage with
    | .stopped _ =>
      if n.consuming && sink.wants n.state then some { n with consuming := false } else none
    | _ => none

/-- Whether all three workers have stopped. -/
def isOver (n : Network σ) : Bool :=
  match n.stage with
  | .stopped _ => !n.producing && !n.consuming
  | _ => false

/-- The problem that the lexer had met when it stopped. -/
def error (n : Network σ) : Option Diagnostic :=
  match n.stage with
  | .stopped error => error
  | _ => none

/-! ## Moves come to an end -/

/-- What a stage can still spend on moves. -/
def stageMeasure : Stage → Nat
  | .scanning l => 4 * l.potential + 3 + (!l.cursor.ended).toNat
  | .offering _ l => 4 * l.potential + 5 + (!l.cursor.ended).toNat
  | .stopped _ => 0

/-- What a network can still spend on moves. -/
def measure (n : Network σ) : Nat :=
  53 * n.unsent.length + n.producing.toNat + n.consuming.toNat + stageMeasure n.stage

/-- Every move lowers the measure. -/
theorem measure_move_lt {sink : Sink σ} {n m : Network σ} {a : Move}
    (h : n.move sink a = some m) : m.measure < n.measure := by
  cases a with
  | handRune =>
    simp only [move] at h
    split at h
    · rename_i r unsent l hu hs
      split at h <;> cases h
      have : (l.hear r).cursor.ended = l.cursor.ended := rfl
      simp only [measure, stageMeasure, hu, hs, Lexer.potential_hear, List.length_cons, this]
      omega
    · cases h
  | exhaust =>
    simp only [move] at h
    split at h <;> cases h
    rename_i hp
    simp only [Bool.and_eq_true] at hp
    simp [measure, hp.1]
  | abandon =>
    simp only [move] at h
    split at h
    · split at h <;> cases h
      rename_i hp
      simp only [Bool.and_eq_true] at hp
      simp [measure, hp.1]
    · cases h
  | closeRunes =>
    simp only [move] at h
    split at h
    · rename_i l hs
      split at h <;> cases h
      rename_i hw
      simp only [Bool.and_eq_true] at hw
      have he := Lexer.not_ended_of_waits hw.2
      have : l.hearEnd.cursor.ended = true := rfl
      simp [measure, stageMeasure, hs, Lexer.potential_hearEnd, he, this]
    · cases h
  | scan =>
    simp only [move] at h
    split at h
    · rename_i l hs
      split at h
      · cases h
      · split at h <;> cases h
        · rename_i t m hn
          have := Lexer.potential_of_next hn
          have := Bool.toNat_le (!m.cursor.ended)
          simp only [measure, stageMeasure, hs]
          omega
        · simp only [measure, stageMeasure, hs]
          omega
    · cases h
  | handToken =>
    simp only [move] at h
    split at h
    · rename_i t l hs
      split at h <;> cases h
      simp only [measure, stageMeasure, hs]
      omega
    · cases h
  | refuse =>
    simp only [move] at h
    split at h
    · rename_i t l hs
      split at h <;> cases h
      simp only [measure, stageMeasure, hs]
      omega
    · cases h
  | suffice =>
    simp only [move] at h
    split at h <;> cases h
    rename_i hc
    simp only [Bool.and_eq_true] at hc
    simp [measure, hc.1]
  | closeTokens =>
    simp only [move] at h
    split at h
    · split at h <;> cases h
      rename_i hc
      simp only [Bool.and_eq_true] at hc
      simp [measure, hc.1]
    · cases h

/-- The network after the first possible move, or `none` where no move is possible. -/
def advance (sink : Sink σ) (n : Network σ) : Option (Network σ) :=
  Move.all.findSome? (n.move sink)

theorem measure_advance_lt {sink : Sink σ} {n m : Network σ} (h : n.advance sink = some m) :
    m.measure < n.measure := by
  obtain ⟨a, _, ha⟩ := List.exists_of_findSome?_eq_some h
  exact measure_move_lt ha

/-- No first move is possible exactly when no move is. -/
theorem advance_eq_none_iff {sink : Sink σ} {n : Network σ} :
    n.advance sink = none ↔ ∀ a, n.move sink a = none := by
  simp only [advance, List.findSome?_eq_none_iff]
  exact ⟨fun h a => h a (by cases a <;> simp [Move.all]), fun h a _ => h a⟩

/-- The network once no move is possible, where the first possible one is always made. -/
def run (sink : Sink σ) (n : Network σ) : Network σ :=
  match _h : n.advance sink with
  | none => n
  | some m => m.run sink
termination_by n.measure
decreasing_by exact measure_advance_lt _h

/-- `Reaches sink n m` says that some choice of moves leads from `n` to `m`. -/
inductive Reaches (sink : Sink σ) : Network σ → Network σ → Prop where
  | refl (n : Network σ) : Reaches sink n n
  | step {n m o : Network σ} (a : Move) (first : n.move sink a = some m)
      (rest : Reaches sink m o) : Reaches sink n o

/-- A run is one of the choices of moves, and it ends where no move is possible. -/
theorem reaches_run (sink : Sink σ) (n : Network σ) :
    Reaches sink n (n.run sink) ∧ ∀ a, (n.run sink).move sink a = none := by
  fun_induction run sink n with
  | case1 n h => exact ⟨.refl n, advance_eq_none_iff.mp h⟩
  | case2 n m h ih =>
    obtain ⟨a, _, ha⟩ := List.exists_of_findSome?_eq_some h
    exact ⟨.step a ha ih.1, ih.2⟩

end Network

end ExprYard
