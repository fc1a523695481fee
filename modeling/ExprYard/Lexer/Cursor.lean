/-!
# Cursors

A cursor hands out the runes of an input one by one, pulls a rune from the input only when it is
asked for one, and can take the last rune back. It counts the runes it has pulled and the runes it
has handed out, so that how far it runs ahead of its reader can be told. It counts in numbers; how the
counts fare that are kept in 32 bits is said of a whole lexer (`Lexer.Narrow`).

`remaining` is the view of a cursor: the runes that it has yet to hand out. Each operation says what
it does to that view, and the loops over a cursor end because the view gets shorter.
-/

namespace ExprYard

/-- A place in an input, with room for one rune taken back. -/
structure Cursor where
  /-- The runes that have not been pulled from the input. -/
  feed : List Char
  /-- The rune that was taken back, if any: it is handed out next. -/
  slot : Option Char
  /-- How many runes have been pulled from the input. -/
  pulled : Nat
  /-- How many runes have been handed out and not taken back. -/
  pos : Nat
  /-- Whether the input has said that it has no more runes. -/
  ended : Bool
deriving DecidableEq

namespace Cursor

/-- The cursor before the first of the given runes. -/
def ofRunes (runes : List Char) : Cursor :=
  ⟨runes, none, 0, 0, false⟩

/-- The runes that an input gives before it first gives none. An input is not asked again after
that, so what it would give later does not count. -/
def untilSilence : List (Option Char) → List Char
  | some r :: answers => r :: untilSilence answers
  | _ => []

/-- The cursor before the first answer of an input that gives a rune or none each time it is
asked. -/
def ofAnswers (answers : List (Option Char)) : Cursor :=
  ofRunes (untilSilence answers)

/-- The runes that a cursor has yet to hand out. -/
def remaining (c : Cursor) : List Char :=
  c.slot.toList ++ c.feed

/-- Hands out the next rune, if there is one. -/
def read (c : Cursor) : Option Char × Cursor :=
  match c.slot, c.feed with
  | some r, _ => (some r, { c with slot := none, pos := c.pos + 1 })
  | none, r :: feed => (some r, { c with feed, pulled := c.pulled + 1, pos := c.pos + 1 })
  | none, [] => (none, { c with ended := true })

/-- Takes back the rune that was handed out last. -/
def unread (c : Cursor) (r : Char) : Cursor :=
  { c with slot := some r, pos := c.pos - 1 }

theorem remaining_of_read {c d : Cursor} {r : Char} (h : c.read = (some r, d)) :
    c.remaining = r :: d.remaining := by
  simp only [read] at h
  split at h <;> cases h <;> simp_all [remaining]

theorem remaining_of_read_none {c d : Cursor} (h : c.read = (none, d)) :
    c.remaining = [] ∧ d = { c with ended := true } := by
  simp only [read] at h
  split at h <;> cases h
  simp_all [remaining]

theorem slot_of_read {c d : Cursor} {o : Option Char} (h : c.read = (o, d)) : d.slot = none := by
  simp only [read] at h
  split at h <;> cases h <;> simp_all

@[simp] theorem slot_unread (c : Cursor) (r : Char) : (c.unread r).slot = some r := rfl

/-- A rune taken back right after it was handed out is the next one again. -/
theorem remaining_unread_of_read {c d : Cursor} {r : Char} (h : c.read = (some r, d)) :
    (d.unread r).remaining = c.remaining := by
  have := slot_of_read h
  rw [remaining_of_read h]
  simp_all [remaining, unread]

/-- Looks at the next rune: it is handed out and taken back, and stands in the slot if there is
one. -/
def peek (c : Cursor) : Cursor :=
  match c.read with
  | (none, d) => d
  | (some r, d) => d.unread r

@[simp] theorem remaining_peek (c : Cursor) : c.peek.remaining = c.remaining := by
  simp only [peek]
  split
  · rename_i h
    have := remaining_of_read_none h
    simp_all [remaining]
  · rename_i h
    exact remaining_unread_of_read h

/-- After a look, the slot holds the next rune. -/
theorem slot_peek (c : Cursor) : c.peek.slot = c.remaining.head? := by
  simp only [peek]
  split
  · rename_i h
    have := remaining_of_read_none h
    rw [this.1, slot_of_read h, List.head?_nil]
  · rename_i h
    rw [remaining_of_read h, slot_unread, List.head?_cons]

/-- Hands out runes while `p` holds of them, and takes back the first of which it does not. -/
def skipWhile (p : Char → Bool) (c : Cursor) : Cursor :=
  match _h : c.read with
  | (none, d) => d
  | (some r, d) => if p r then d.skipWhile p else d.unread r
termination_by c.remaining.length
decreasing_by simp [remaining_of_read _h]

/-- Skipping drops the longest run of runes of which `p` holds. -/
theorem remaining_skipWhile (p : Char → Bool) (c : Cursor) :
    (c.skipWhile p).remaining = c.remaining.dropWhile p := by
  fun_induction skipWhile p c with
  | case1 c d h =>
    have := remaining_of_read_none h
    simp_all [remaining]
  | case2 c r d h hp ih => rw [ih, remaining_of_read h, List.dropWhile_cons_of_pos hp]
  | case3 c r d h hp =>
    rw [remaining_unread_of_read h, remaining_of_read h, List.dropWhile_cons_of_neg hp]

/-- After skipping, the slot holds the next rune. -/
theorem slot_skipWhile (p : Char → Bool) (c : Cursor) :
    (c.skipWhile p).slot = (c.remaining.dropWhile p).head? := by
  fun_induction skipWhile p c with
  | case1 c d h => rw [(remaining_of_read_none h).1, slot_of_read h]; rfl
  | case2 c r d h hp ih => rw [ih, remaining_of_read h, List.dropWhile_cons_of_pos hp]
  | case3 c r d h hp => simp [remaining_of_read h, List.dropWhile_cons_of_neg hp]

end Cursor

end ExprYard
