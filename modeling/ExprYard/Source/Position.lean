/-!
# Positions and spans

Places in an input are counted in runes, from 0, and carry the name of the input they belong to.

Offsets are numbers, but they are kept in 32 bits: what is kept of one is `Offset.wrap` of it. For
all places in an input of fewer than 2^32 runes that is the offset itself.
-/

namespace ExprYard

namespace Offset

/-- What is kept of an offset: after the greatest one that can be kept they start anew. -/
def wrap (offset : Nat) : Nat :=
  offset % UInt32.size

variable {n : Nat}

theorem wrap_lt (n : Nat) : wrap n < UInt32.size :=
  Nat.mod_lt n (by decide)

theorem wrap_of_lt (h : n < UInt32.size) : wrap n = n :=
  Nat.mod_eq_of_lt h

/-- One is added to what is kept of an offset. -/
theorem wrap_succ (n : Nat) : wrap (wrap n + 1) = wrap (n + 1) :=
  Nat.mod_add_mod n UInt32.size 1

/-- One is taken from what is kept of an offset, and before the first offset is the greatest. -/
theorem wrap_pred (h : 0 < n) : wrap (wrap n + (UInt32.size - 1)) = wrap (n - 1) := by
  have hsum : n + (UInt32.size - 1) = n - 1 + UInt32.size := by
    have hsize : 0 < UInt32.size := by decide
    omega
  show (n % UInt32.size + (UInt32.size - 1)) % UInt32.size = (n - 1) % UInt32.size
  rw [Nat.mod_add_mod, hsum, Nat.add_mod_right]

end Offset

/-- A place in a named input: between the runes `offset - 1` and `offset`. -/
structure Position where
  offset : Nat
  file : String
deriving DecidableEq

/-- The place of a problem that belongs to no input. -/
def Position.null : Position :=
  ⟨0, "<null>"⟩

/-- What is kept of a place. -/
def Position.narrow (p : Position) : Position :=
  ⟨Offset.wrap p.offset, p.file⟩

/-- The stretch of a named input from offset `start` up to, and without, offset `stop`. -/
structure Span where
  start : Nat
  stop : Nat
  file : String
deriving DecidableEq

namespace Span

/-- The empty stretch at a place. -/
def point (p : Position) : Span :=
  ⟨p.offset, p.offset, p.file⟩

/-- The place at which a stretch starts. -/
def first (s : Span) : Position :=
  ⟨s.start, s.file⟩

/-- What is kept of a stretch. -/
def narrow (s : Span) : Span :=
  ⟨Offset.wrap s.start, Offset.wrap s.stop, s.file⟩

@[simp] theorem first_point (p : Position) : (point p).first = p := rfl

end Span

/-- The name of an input that was given none. -/
def defaultFile : String :=
  "shell"

end ExprYard
