/-!
# Relays

The shortest pipeline: a producer with the runes of a source, and a consumer that takes a number of
them and stops. As in any pipeline, a rune that is handed over is taken at that moment, a producer
that cannot hand over any more stops, and a consumer that is told that nothing more will come stops.
-/

namespace ExprYard

/-- A moment in the work of a producer and a consumer of runes. -/
structure Relay where
  /-- The runes that the producer has not handed over. -/
  unsent : List Char
  /-- Whether the producer is at work. -/
  producing : Bool
  /-- The runes that the consumer has taken, the latest first. -/
  taken : List Char
  /-- How many runes the consumer takes at most; as many as there are if no number is given. -/
  limit : Option Nat
  /-- Whether the consumer is at work. -/
  consuming : Bool
deriving DecidableEq

namespace Relay

/-- The next thing to happen in a relay. -/
inductive Move where
  /-- The consumer takes a rune from the producer. -/
  | handRune
  /-- The producer, out of runes, stops. -/
  | exhaust
  /-- The producer, with no consumer to take its runes, stops. -/
  | abandon
  /-- The consumer, with enough runes, stops. -/
  | suffice
  /-- The consumer is told that there are no more runes, and stops. -/
  | closeRunes
deriving DecidableEq

/-- Every move, once, in the order in which `run` looks for a possible one. -/
def Move.all : List Move :=
  [handRune, exhaust, suffice, closeRunes, abandon]

/-- Both workers before they start. -/
def start (source : List Char) (limit : Option Nat) : Relay :=
  ⟨source, true, [], limit, true⟩

/-- Whether the consumer asks for another rune. -/
def wants (n : Relay) : Bool :=
  match n.limit with
  | none => true
  | some limit => n.taken.length < limit

/-- The relay after a move, or `none` where the move is not possible. -/
def move (n : Relay) : Move → Option Relay
  | .handRune =>
    match n.unsent with
    | r :: unsent =>
      if n.producing && n.consuming && n.wants then some { n with unsent, taken := r :: n.taken }
      else none
    | [] => none
  | .exhaust =>
    if n.producing && n.unsent.isEmpty then some { n with producing := false } else none
  | .abandon =>
    if n.producing && !n.unsent.isEmpty && !n.consuming then some { n with producing := false }
    else none
  | .suffice =>
    if n.consuming && !n.wants then some { n with consuming := false } else none
  | .closeRunes =>
    if n.consuming && n.wants && !n.producing then some { n with consuming := false } else none

/-- Whether both workers have stopped. -/
def isOver (n : Relay) : Bool :=
  !n.producing && !n.consuming

/-- The runes that the consumer has taken, in the order in which they came. -/
def received (n : Relay) : List Char :=
  n.taken.reverse

/-- What a relay can still spend on moves. -/
def measure (n : Relay) : Nat :=
  n.unsent.length + n.producing.toNat + n.consuming.toNat

/-- Every move lowers the measure. -/
theorem measure_move_lt {n m : Relay} {a : Move} (h : n.move a = some m) :
    m.measure < n.measure := by
  cases a with
  | handRune =>
    simp only [move] at h
    split at h
    · rename_i r unsent hu
      split at h <;> cases h
      simp only [measure, hu, List.length_cons]
      omega
    · cases h
  | exhaust | abandon | suffice | closeRunes =>
    simp only [move] at h
    split at h <;> cases h
    rename_i hp
    simp only [Bool.and_eq_true] at hp
    simp [measure, hp]

/-- The relay after the first possible move, or `none` where no move is possible. -/
def advance (n : Relay) : Option Relay :=
  Move.all.findSome? n.move

theorem measure_advance_lt {n m : Relay} (h : n.advance = some m) : m.measure < n.measure := by
  obtain ⟨a, _, ha⟩ := List.exists_of_findSome?_eq_some h
  exact measure_move_lt ha

/-- No first move is possible exactly when no move is. -/
theorem advance_eq_none_iff {n : Relay} : n.advance = none ↔ ∀ a, n.move a = none := by
  simp only [advance, List.findSome?_eq_none_iff]
  exact ⟨fun h a => h a (by cases a <;> simp [Move.all]), fun h a _ => h a⟩

/-- The relay once no move is possible, where the first possible one is always made. -/
def run (n : Relay) : Relay :=
  match _h : n.advance with
  | none => n
  | some m => m.run
termination_by n.measure
decreasing_by exact measure_advance_lt _h

/-- `Reaches n m` says that some choice of moves leads from `n` to `m`. -/
inductive Reaches : Relay → Relay → Prop where
  | refl (n : Relay) : Reaches n n
  | step {n m o : Relay} (a : Move) (first : n.move a = some m) (rest : Reaches m o) : Reaches n o

/-- A run is one of the choices of moves, and it ends where no move is possible. -/
theorem reaches_run (n : Relay) : Reaches n n.run ∧ ∀ a, n.run.move a = none := by
  fun_induction run n with
  | case1 n h => exact ⟨.refl n, advance_eq_none_iff.mp h⟩
  | case2 n m h ih =>
    obtain ⟨a, _, ha⟩ := List.exists_of_findSome?_eq_some h
    exact ⟨.step a ha ih.1, ih.2⟩

end Relay

end ExprYard
