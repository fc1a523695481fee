import ExprYard.Lexer.Narrow
import ExprYard.Proofs.Lexer.Answers
import ExprYard.Proofs.Relocation

/-!
# Strokes of a narrow lexer

A narrow lexer keeps of a lexer what can be kept of its offsets. `Stands` is the invariant of a lexer
that is kept: its cursor follows the source and the token being built is a stretch of it; and where
the source has an offset for each of its runes, all moments that it has gone through are sound.
`Does` says of a piece of the narrow lexer that it keeps the invariant and does what a piece of the
lexer does. There is one lemma for each stroke and one for each loop, put together by `Does.bind`.

Giving a rune back is two strokes, and between them the token being built does not stop where it is
held to stop. So that is not put together from lemmas on its parts, but followed to its end
(`run_giveBack`).

A rune may be consumed or given back only where nothing has been skipped since the token being built
was started (`Contiguous`).
-/

namespace ExprYard

/-! ## Cursors -/

namespace Cursor

variable {source : List Char} {c d : Cursor} {r : Char}

/-- A cursor that came from the first rune of a source has handed out the runes before `pos`, and
knows the one at `pos` if that waits in its slot. -/
structure Follows (source : List Char) (c : Cursor) : Prop where
  feed : c.feed = source.drop c.pulled
  within : c.pulled ≤ source.length
  pulled : c.pulled = c.pos + c.slot.toList.length
  slot : ∀ r, c.slot = some r → source[c.pos]? = some r

theorem follows_ofRunes (source : List Char) : Follows source (ofRunes source) where
  feed := rfl
  within := Nat.zero_le _
  pulled := rfl
  slot := by
    intro r h
    cases h

theorem Follows.pos_le (h : c.Follows source) : c.pos ≤ source.length := by
  have hpulled := h.pulled
  have hwithin := h.within
  omega

theorem Follows.pos_le_pulled (h : c.Follows source) : c.pos ≤ c.pulled := by
  have hpulled := h.pulled
  omega

theorem pos_le_read (c : Cursor) : c.pos ≤ c.read.2.pos := by
  unfold read
  split
  · exact Nat.le_succ c.pos
  · exact Nat.le_succ c.pos
  · exact Nat.le_refl c.pos

theorem Follows.read (h : c.Follows source) : c.read.2.Follows source := by
  obtain ⟨feed, slot, pulled, pos, ended⟩ := c
  obtain ⟨hfeed, hwithin, hpulled, hslot⟩ := h
  dsimp only at hfeed hwithin hpulled hslot
  cases slot with
  | some r =>
    refine ⟨hfeed, hwithin, hpulled, ?_⟩
    intro s hs
    cases hs
  | none =>
    cases feed with
    | nil =>
      refine ⟨hfeed, hwithin, hpulled, ?_⟩
      intro s hs
      cases hs
    | cons r feed =>
      have hlt : pulled < source.length := by
        have hlen := congrArg List.length hfeed
        rw [List.length_cons, List.length_drop] at hlen
        omega
      refine ⟨?_, hlt, ?_, ?_⟩
      · show feed = source.drop (pulled + 1)
        rw [← List.tail_drop, ← hfeed, List.tail_cons]
      · show pulled + 1 = pos + 1
        rw [hpulled]
        rfl
      · intro s hs
        cases hs

/-- The rune that is handed out is the one at the place that the cursor has come to. -/
theorem Follows.getElem?_of_read (h : c.Follows source) (hr : c.read = (some r, d)) :
    source[c.pos]? = some r := by
  obtain ⟨feed, slot, pulled, pos, ended⟩ := c
  obtain ⟨hfeed, hwithin, hpulled, hslot⟩ := h
  dsimp only at hfeed hwithin hpulled hslot
  cases slot with
  | some s =>
    cases hr
    exact hslot r rfl
  | none =>
    cases feed with
    | nil => cases hr
    | cons s feed =>
      cases hr
      show source[pos]? = some r
      rw [← Nat.add_zero pos, ← show pulled = pos + 0 from hpulled, ← List.head?_drop, ← hfeed]
      rfl

/-- A rune that stands before the cursor may be taken back into a slot that is free. -/
theorem Follows.unread (h : c.Follows source) (hs : c.slot = none) (hpos : 0 < c.pos)
    (hr : source[c.pos - 1]? = some r) : (c.unread r).Follows source where
  feed := h.feed
  within := h.within
  pulled := by
    have hpulled := h.pulled
    rw [hs] at hpulled
    show c.pulled = c.pos - 1 + 1
    rw [Nat.sub_add_cancel hpos, hpulled]
    rfl
  slot := by
    intro s hs
    cases hs
    exact hr

/-- What is kept of a cursor. -/
def narrow (c : Cursor) : Cursor :=
  { c with pos := Offset.wrap c.pos }

/-- A cursor that is kept hands out the same rune, and what is kept then is the same. -/
theorem read_narrow {o : Option Char} (h : c.read = (o, d)) :
    ∃ p, c.narrow.read = (o, { d with pos := p }) ∧ Offset.wrap p = Offset.wrap d.pos ∧
      (c.pos < UInt32.size → p = d.pos) := by
  obtain ⟨feed, slot, pulled, pos, ended⟩ := c
  have hsucc : pos < UInt32.size → Offset.wrap pos + 1 = pos + 1 :=
    fun hlt => congrArg (· + 1) (Offset.wrap_of_lt hlt)
  cases slot with
  | some r =>
    cases h
    exact ⟨Offset.wrap pos + 1, rfl, Offset.wrap_succ pos, hsucc⟩
  | none =>
    cases feed with
    | nil =>
      cases h
      exact ⟨Offset.wrap pos, rfl, Offset.wrap_of_lt (Offset.wrap_lt pos), Offset.wrap_of_lt⟩
    | cons r feed =>
      cases h
      exact ⟨Offset.wrap pos + 1, rfl, Offset.wrap_succ pos, hsucc⟩

theorem Follows.wrap_pos (h : c.Follows source) (room : source.length < UInt32.size) :
    Offset.wrap c.pos = c.pos :=
  Offset.wrap_of_lt (Nat.lt_of_le_of_lt h.pos_le room)

theorem Follows.pulled_narrow (h : c.Follows source) (room : source.length < UInt32.size) :
    c.narrow.pulled = if c.narrow.slot.isSome then c.narrow.pos + 1 else c.narrow.pos := by
  show c.pulled = if c.slot.isSome then Offset.wrap c.pos + 1 else Offset.wrap c.pos
  rw [h.wrap_pos room, h.pulled]
  cases c.slot <;> rfl

theorem Follows.slot_narrow (h : c.Follows source) (room : source.length < UInt32.size) (r : Char)
    (hr : c.narrow.slot = some r) : source[c.narrow.pos]? = some r := by
  show source[Offset.wrap c.pos]? = some r
  rw [h.wrap_pos room]
  exact h.slot r hr

end Cursor

/-- A stretch of a list that is followed by `a` there goes on with it. -/
theorem prefix_concat {α : Type} {as bs : List α} {a : α} (h : as <+: bs)
    (ha : bs[as.length]? = some a) : as ++ [a] <+: bs := by
  obtain ⟨rest, rfl⟩ := h
  rw [List.getElem?_append_right (Nat.le_refl _), Nat.sub_self] at ha
  cases rest with
  | nil => cases ha
  | cons b rest =>
    cases ha
    exact ⟨rest, by rw [List.append_assoc]; rfl⟩

namespace Lexer

variable {source : List Char} {l m n : Lexer} {r : Char}

namespace Narrow

/-! ## What is kept -/

/-- What is kept of a lexer. -/
def narrow (l : Lexer) : Lexer :=
  { l with
    cursor := l.cursor.narrow
    start := Offset.wrap l.start
    queue := l.queue.map (Token.relocate .narrow)
    error := l.error.map (Diagnostic.relocate .narrow) }

theorem lexeme_narrow (l : Lexer) : (narrow l).lexeme = l.lexeme :=
  rfl

theorem narrow_emit (kind : Kind) {stop : Nat} (hstop : stop = l.start + l.taken.length) :
    { narrow l with
      taken := []
      queue := (narrow l).queue
        ++ [⟨kind, String.ofList l.lexeme, Offset.wrap l.start, Offset.wrap stop, l.file⟩] }
      = narrow (l.emit kind) := by
  subst hstop
  unfold narrow Lexer.emit
  dsimp only
  rw [List.map_append]
  rfl

theorem narrow_fail (problem : Problem) :
    (narrow l).fail problem = narrow (l.fail problem) := by
  have hoffset : (if l.taken.isEmpty then Offset.wrap l.cursor.pos else Offset.wrap l.start)
      = Offset.wrap (if l.taken.isEmpty then l.cursor.pos else l.start) := by
    split <;> rfl
  unfold narrow Lexer.fail
  dsimp only [Cursor.narrow]
  rw [hoffset, List.map_append]
  rfl

theorem close_narrow (l : Lexer) : (narrow l).close = l.close.map narrow := by
  unfold close narrow
  dsimp only
  split <;> rfl

theorem potential_narrow (l : Lexer) : (narrow l).potential = l.potential := by
  unfold potential
  rw [show (narrow l).queue.length = l.queue.length from List.length_map ..]
  rfl

/-! ## Moments -/

/-- What is true of a lexer right after a stroke: the runes that it has pulled from the source are
those before its place and the one in its slot, if there is one; that is the rune of the source at
its place; and the token being built, if there is one, is the stretch of the source from where it
starts to where it stops, which is not behind that place. After its last rune has been taken back the
token still stops behind that rune, and it is the stretch from where it starts to that place. -/
structure Moment.Sound (source : List Char) (m : Moment) : Prop where
  pulled : m.lexer.cursor.pulled
    = if m.lexer.cursor.slot.isSome then m.lexer.cursor.pos + 1 else m.lexer.cursor.pos
  slot : ∀ r, m.lexer.cursor.slot = some r → source[m.lexer.cursor.pos]? = some r
  lexeme : m.stroke ≠ .unreadTaken → m.lexer.lexeme ≠ [] →
    m.lexer.lexeme = (source.drop m.lexer.start).take (m.stop - m.lexer.start) ∧
      m.lexer.start < m.stop ∧ m.stop ≤ m.lexer.cursor.pos
  unreadTaken : m.stroke = .unreadTaken → m.stop = m.lexer.cursor.pos + 1 ∧
    (m.lexer.lexeme ≠ [] → m.lexer.start < m.lexer.cursor.pos ∧
      m.lexer.lexeme = (source.drop m.lexer.start).take (m.lexer.cursor.pos - m.lexer.start))

/-- A lexer with the token being built stopping at `stop`: what makes it sound, and that what it has
not pulled of the source is still to come. -/
structure Firm (source : List Char) (l : Lexer) (stop : Nat) : Prop where
  follows : l.cursor.Follows source
  lexeme : l.lexeme <+: source.drop l.start
  stops : l.taken ≠ [] → stop = l.start + l.taken.length
  reached : l.taken ≠ [] → l.start + l.taken.length ≤ l.cursor.pos

namespace Firm

variable {stop : Nat} {o : Option Char} {c : Cursor}

/-- The token being built is the stretch of the source of its length. -/
theorem lexeme_eq_take (h : Firm source l stop) :
    l.lexeme = (source.drop l.start).take l.taken.length := by
  have hlen : l.lexeme.length = l.taken.length := List.length_reverse
  rw [← hlen]
  exact List.prefix_iff_eq_take.mp h.lexeme

/-- Where a source has an offset for each of its runes, what is kept of a lexer is sound. -/
theorem sound (h : Firm source l stop) (room : source.length < UInt32.size) {stroke : Stroke}
    (hs : stroke ≠ .unreadTaken) :
    Moment.Sound source ⟨stroke, narrow l, Offset.wrap stop⟩ where
  pulled := h.follows.pulled_narrow room
  slot := h.follows.slot_narrow room
  lexeme := by
    intro _ hn
    have hn : l.taken ≠ [] := taken_ne_nil_of_lexeme hn
    have hlen := List.length_pos_iff.mpr hn
    have hpos := h.follows.pos_le
    have hstop := h.stops hn
    have hreached := h.reached hn
    have hkept : Offset.wrap l.start = l.start := Offset.wrap_of_lt (by omega)
    show l.lexeme
        = (source.drop (Offset.wrap l.start)).take (Offset.wrap stop - Offset.wrap l.start) ∧
      Offset.wrap l.start < Offset.wrap stop ∧ Offset.wrap stop ≤ Offset.wrap l.cursor.pos
    rw [hkept, Offset.wrap_of_lt (n := stop) (by omega), h.follows.wrap_pos room]
    refine ⟨?_, by omega, by omega⟩
    rw [hstop, Nat.add_sub_cancel_left]
    exact h.lexeme_eq_take
  unreadTaken := fun h => (hs h).elim

/-- So it is after the unread of the rune at its place, which the token being built still stops
behind. -/
theorem sound_unreadTaken (h : Firm source l l.cursor.pos) (room : source.length < UInt32.size)
    (hpos : l.cursor.pos < source.length) :
    Moment.Sound source ⟨.unreadTaken, narrow l, Offset.wrap (l.cursor.pos + 1)⟩ where
  pulled := h.follows.pulled_narrow room
  slot := h.follows.slot_narrow room
  lexeme := fun hs => (hs rfl).elim
  unreadTaken := by
    intro _
    show Offset.wrap (l.cursor.pos + 1) = Offset.wrap l.cursor.pos + 1 ∧ (l.lexeme ≠ [] →
      Offset.wrap l.start < Offset.wrap l.cursor.pos ∧ l.lexeme
        = (source.drop (Offset.wrap l.start)).take (Offset.wrap l.cursor.pos - Offset.wrap l.start))
    rw [h.follows.wrap_pos room, Offset.wrap_of_lt (n := l.cursor.pos + 1) (by omega)]
    refine ⟨rfl, ?_⟩
    intro hn
    have hn : l.taken ≠ [] := taken_ne_nil_of_lexeme hn
    have hlen := List.length_pos_iff.mpr hn
    have hstop := h.stops hn
    rw [Offset.wrap_of_lt (n := l.start) (by omega)]
    refine ⟨by omega, ?_⟩
    rw [hstop, Nat.add_sub_cancel_left]
    exact h.lexeme_eq_take

/-- With no token being built only the cursor matters. -/
theorem of_nil (h : l.cursor.Follows source) (ht : l.taken = []) (stop : Nat) :
    Firm source l stop where
  follows := h
  lexeme := by
    rw [lexeme_of_nil ht]
    exact List.nil_prefix
  stops hn := (hn ht).elim
  reached hn := (hn ht).elim

/-- What is expected, counted and finished does not matter. -/
theorem recast (h : Firm source l stop) (hc : m.cursor = l.cursor) (ht : m.taken = l.taken)
    (hs : m.start = l.start) : Firm source m stop where
  follows := by
    rw [hc]
    exact h.follows
  lexeme := by
    rw [Lexer.lexeme, ht, hs]
    exact h.lexeme
  stops := by
    rw [ht, hs]
    exact h.stops
  reached := by
    rw [ht, hs, hc]
    exact h.reached

theorem read (h : Firm source l stop) (hr : l.cursor.read = (o, c)) :
    Firm source { l with cursor := c } stop where
  follows := by
    have follows := h.follows.read
    rw [hr] at follows
    exact follows
  lexeme := h.lexeme
  stops := h.stops
  reached := by
    intro hn
    have hle := Cursor.pos_le_read l.cursor
    rw [hr] at hle
    exact Nat.le_trans (h.reached hn) hle

/-- Reading and taking back comes back to where the cursor was. -/
theorem look (h : Firm source l stop) (hr : l.cursor.read = (some r, c)) :
    Firm source { l with cursor := c.unread r } stop where
  follows := (h.read hr).follows.unread (Cursor.slot_of_read hr) (by rw [pos_of_read hr]; omega)
    (by rw [pos_of_read hr]; exact h.follows.getElem?_of_read hr)
  lexeme := h.lexeme
  stops := h.stops
  reached := by
    intro hn
    show l.start + l.taken.length ≤ c.pos - 1
    rw [pos_of_read hr]
    exact h.reached hn

/-- The token being built, if there is one, stops at the place that the lexer has come to. -/
theorem of_contiguous (follows : l.cursor.Follows source) (lexeme : l.lexeme <+: source.drop l.start)
    (hpos : l.cursor.pos = l.start + l.taken.length) : Firm source l l.cursor.pos where
  follows := follows
  lexeme := lexeme
  stops _ := hpos
  reached _ := Nat.le_of_eq hpos.symm

/-- Where a token starts that is yet to be started, it is a stretch of the source as well. -/
theorem lexeme_offset (h : Firm source l stop) : l.lexeme <+: source.drop l.offset := by
  by_cases hn : l.taken = []
  · rw [lexeme_of_nil hn]
    exact List.nil_prefix
  · rw [offset_of_ne_nil hn]
    exact h.lexeme

/-- A rune that is consumed goes on with the token being built, since nothing has been skipped since
that was started. -/
theorem take (h : Firm source l stop) (hc : l.Contiguous) (hr : l.cursor.read = (some r, c)) :
    Firm source { l with cursor := c, taken := r :: l.taken, start := l.offset } c.pos := by
  have hlen : l.lexeme.length = l.taken.length := List.length_reverse
  have hword : ({ l with taken := r :: l.taken } : Lexer).lexeme = l.lexeme ++ [r] :=
    List.reverse_cons
  unfold Contiguous at hc
  refine .of_contiguous (h.read hr).follows ?_ ?_
  · show ({ l with taken := r :: l.taken } : Lexer).lexeme <+: source.drop l.offset
    rw [hword]
    refine prefix_concat h.lexeme_offset ?_
    rw [List.getElem?_drop, hlen, ← hc]
    exact h.follows.getElem?_of_read hr
  · show c.pos = l.offset + (l.taken.length + 1)
    rw [pos_of_read hr, hc, Nat.add_assoc]

/-- A rune that is consumed and given back leaves the token being built as it was. -/
theorem giveBack (h : Firm source l stop) (hc : l.Contiguous) (hr : l.cursor.read = (some r, c)) :
    Firm source { l with cursor := c.unread r, start := l.offset } (c.unread r).pos := by
  have hpos : (c.unread r).pos = l.cursor.pos := by
    show c.pos - 1 = l.cursor.pos
    rw [pos_of_read hr, Nat.add_sub_cancel]
  refine .of_contiguous (h.look hr).follows h.lexeme_offset ?_
  exact hpos.trans hc

end Firm

/-- A narrow lexer keeps a lexer before a source: that is firm, all moments on the way were sound if
the source has an offset for each of its runes, and the checked build goes to work only if it has. -/
structure Stands (source : List Char) (build : Build) (l : Lexer) (stop : Nat) (past : List Moment) :
    Prop where
  firm : Firm source l stop
  past : source.length < UInt32.size → ∀ m ∈ past, m.Sound source
  room : build = .checked → source.length < UInt32.size

/-- A narrow lexer that keeps a lexer. -/
def watched (build : Build) (l : Lexer) (stop : Nat) (past : List Moment) : Watched :=
  ⟨build, narrow l, Offset.wrap stop, past⟩

/-- A piece of the narrow lexer does what makes `m` of `l`, with the result `a`. -/
def Does (source : List Char) (l : Lexer) {α : Type} (piece : Watch α) (a : α) (m : Lexer) : Prop :=
  ∀ build stop past, Stands source build l stop past →
    ∃ stop' past', piece.run (watched build l stop past) = some (a, watched build m stop' past') ∧
      Stands source build m stop' past'

variable {α β : Type} {piece other : Watch α} {f : α → Watch β} {a : α} {b : β}

theorem run_bind {w w' : Watched} (h : piece.run w = some (a, w')) :
    (piece >>= f).run w = (f a).run w' := by
  rw [StateT.run_bind, h]
  rfl

/-- One after the other. -/
theorem Does.bind (h : Does source l piece a m) (g : Does source m (f a) b n) :
    Does source l (piece >>= f) b n := by
  intro build stop past stands
  obtain ⟨stop', past', hpiece, stands⟩ := h build stop past stands
  obtain ⟨stop'', past'', hf, stands⟩ := g build stop' past' stands
  exact ⟨stop'', past'', (run_bind hpiece).trans hf, stands⟩

theorem does_pure (a : α) : Does source l (pure a) a l :=
  fun _ stop past stands => ⟨stop, past, rfl, stands⟩

/-- One of two. -/
theorem Does.ite {c : Prop} [Decidable c] (h : c → Does source l piece a m)
    (g : ¬ c → Does source l other a n) :
    Does source l (if c then piece else other) a (if c then m else n) := by
  by_cases hc : c
  · rw [if_pos hc, if_pos hc]
    exact h hc
  · rw [if_neg hc, if_neg hc]
    exact g hc

/-- A piece may count on what is firm when it begins. -/
theorem Does.of_firm (h : ∀ stop, Firm source l stop → Does source l piece a m) :
    Does source l piece a m :=
  fun build stop past stands => h stop stands.firm build stop past stands

theorem run_lexer (w : Watched) : lexer.run w = some (w.lexer, w) :=
  rfl

theorem run_alter (change : Lexer → Lexer) (w : Watched) :
    (alter change).run w = some ((), { w with lexer := change w.lexer }) :=
  rfl

theorem does_lexer : Does source l lexer (narrow l) l :=
  fun _ stop past stands => ⟨stop, past, rfl, stands⟩

theorem run_mind {w : Watched} {c : Prop} [Decidable c] (h : w.build = .checked → c) :
    (mind c).run w = some ((), w) := by
  obtain ⟨build, l, stop, past⟩ := w
  have hc : build = .wrapping ∨ c := by
    cases build with
    | wrapping => exact .inl rfl
    | checked => exact .inr (h rfl)
  show (guard (build = .wrapping ∨ c) : Watch Unit).run _ = _
  unfold guard
  rw [if_pos hc]
  rfl

/-- What holds where the source has an offset for each of its runes holds in the checked build. -/
theorem does_mind {c : Prop} [Decidable c] (h : source.length < UInt32.size → c) :
    Does source l (mind c) () l :=
  fun _ stop past stands => ⟨stop, past, run_mind fun hbuild => h (stands.room hbuild), stands⟩

/-- What is firm may be the next moment. -/
theorem Stands.pass {build : Build} {stop stop' : Nat} {past : List Moment} {stroke : Stroke}
    (h : Stands source build l stop past) (hs : stroke ≠ .unreadTaken) (hm : Firm source m stop') :
    Stands source build m stop' (⟨stroke, narrow m, Offset.wrap stop'⟩ :: past) where
  firm := hm
  past := by
    intro room n hn
    rcases List.mem_cons.mp hn with rfl | hn
    · exact hm.sound room hs
    · exact h.past room n hn
  room := h.room

theorem does_pass {stop : Nat} {stroke : Stroke} (hs : stroke ≠ .unreadTaken)
    (h : Firm source m stop) :
    Does source l (pass ⟨stroke, narrow m, Offset.wrap stop⟩) () m :=
  fun _ _ past stands => ⟨stop, _ :: past, rfl, stands.pass hs h⟩

/-- A change that is the same for what is kept. -/
theorem does_adjust {stroke : Stroke} {change : Lexer → Lexer} (hs : stroke ≠ .unreadTaken)
    (hkept : change (narrow l) = narrow m) (h : ∀ stop, Firm source l stop → Firm source m stop) :
    Does source l (adjust stroke change) () m := by
  intro build stop past stands
  refine ⟨stop, ⟨stroke, change (narrow l), Offset.wrap stop⟩ :: past, ?_, ?_⟩
  · show some ((), _) = some ((), _)
    unfold watched
    dsimp only
    rw [hkept]
  · rw [hkept]
    exact stands.pass hs (h stop stands.firm)

/-! ## Strokes -/

/-- Handing out a rune is within the bounds where there are as many offsets as runes. -/
theorem does_read {o : Option Char} {c : Cursor} (hr : l.cursor.read = (o, c)) :
    Does source l read o { l with cursor := c } := by
  refine .of_firm fun stop firm => ?_
  obtain ⟨p, hread, hwrap, hp⟩ := Cursor.read_narrow hr
  have hlt : source.length < UInt32.size → p < UInt32.size := by
    intro room
    rw [hp (Nat.lt_of_le_of_lt firm.follows.pos_le room)]
    exact Nat.lt_of_le_of_lt (firm.read hr).follows.pos_le room
  have hkept : { narrow l with cursor := { c with pos := Offset.wrap p } }
      = narrow { l with cursor := c } := by
    rw [hwrap]
    rfl
  unfold read
  refine does_lexer.bind ?_
  rw [show (narrow l).cursor = l.cursor.narrow from rfl, hread]
  exact (does_mind hlt).bind ((does_adjust (by decide) hkept fun stop firm => firm.read hr).bind
    (does_pure o))

/-- Before what is kept of an offset is what is kept of the one before. -/
theorem run_before {w : Watched} {offset : Nat} (h : 0 < offset)
    (room : w.build = .checked → offset < UInt32.size) :
    (before (Offset.wrap offset)).run w = some (Offset.wrap (offset - 1), w) := by
  have hkept : w.build = .checked → 0 < Offset.wrap offset := by
    intro hbuild
    rw [Offset.wrap_of_lt (room hbuild)]
    exact h
  unfold before
  rw [run_bind (run_mind hkept), Offset.wrap_pred h]
  rfl

/-- A rune may be taken back into a slot that is free, before some rune at least. -/
theorem run_unread (stroke : Stroke) (r : Char) {build : Build} (stop : Nat) (past : List Moment)
    (hslot : l.cursor.slot = none) (hpos : 0 < l.cursor.pos)
    (room : build = .checked → l.cursor.pos < UInt32.size) :
    (unread stroke r).run (watched build l stop past)
      = some ((), watched build { l with cursor := l.cursor.unread r } stop
          (⟨stroke, narrow { l with cursor := l.cursor.unread r }, Offset.wrap stop⟩ :: past)) := by
  have hbefore := run_before (w := watched build l stop past) hpos room
  exact (run_bind (run_lexer _)).trans
    ((run_bind (run_mind fun _ => hslot)).trans (run_bind hbefore))

/-- A token is given its last rune back by two strokes. In between it stops where it did. -/
theorem run_giveBack {taken : List Char} {build : Build} {stop : Nat} {past : List Moment}
    (htaken : l.taken = r :: taken) (hslot : l.cursor.slot = none) (hpos : 0 < l.cursor.pos)
    (room : build = .checked → l.cursor.pos < UInt32.size) :
    giveBack.run (watched build l stop past)
      = some ((), watched build l.giveBack l.giveBack.cursor.pos
          (⟨.giveBack, narrow l.giveBack, Offset.wrap l.giveBack.cursor.pos⟩ ::
            ⟨.unreadTaken, narrow l.giveBack, Offset.wrap stop⟩ :: past)) := by
  obtain ⟨cursor, _, start, parens, outer, state, queue, error, file⟩ := l
  subst htaken
  have hunread := run_unread (l := ⟨cursor, taken, start, parens, outer, state, queue, error, file⟩)
    .unreadTaken r stop past hslot hpos room
  exact (run_bind (run_lexer _)).trans ((run_bind (run_alter _ _)).trans (run_bind hunread))

/-- A rune that has just been handed out may be taken back: reading has emptied the slot, and the
cursor comes back to where it was. -/
theorem does_unread {stop : Nat} {c : Cursor} (firm : Firm source l stop)
    (hr : l.cursor.read = (some r, c)) :
    Does source { l with cursor := c } (unread .unread r) () { l with cursor := c.unread r } := by
  intro build stop past stands
  have hpos : 0 < c.pos := by
    rw [pos_of_read hr]
    exact Nat.succ_pos _
  have hle : c.pos ≤ source.length := stands.firm.follows.pos_le
  have back := firm.look hr
  have after : Firm source { l with cursor := c.unread r } stop :=
    ⟨back.follows, back.lexeme, stands.firm.stops, back.reached⟩
  exact ⟨stop, _, run_unread .unread r stop past (Cursor.slot_of_read hr) hpos
    fun hbuild => Nat.lt_of_le_of_lt hle (stands.room hbuild), stands.pass nofun after⟩

theorem does_peek : Does source l peek l.peek.ahead l.peek := by
  refine .of_firm fun stop firm => ?_
  unfold peek Lexer.peek Cursor.peek ahead
  cases hr : l.cursor.read with
  | mk o c =>
    refine (does_read hr).bind ?_
    cases o with
    | none =>
      have hslot := Cursor.slot_of_read hr
      dsimp only
      rw [hslot]
      exact does_pure none
    | some r => exact (does_unread firm hr).bind (does_pure (some r))

/-- After a look the slot is full, and no other rune may be taken back. -/
example : (peek >>= fun _ => unread .unread 'a').run (.ofRunes .checked ['a'] "shell") = none := by
  rfl

theorem does_skipFor : ∀ (c : Cursor) (turns : Nat), c.remaining.length < turns →
    Does source { l with cursor := c } (skipFor turns) (c.skipWhile Rune.isBlank).slot
      { l with cursor := c.skipWhile Rune.isBlank } := by
  intro c turns hturns
  induction turns generalizing c with
  | zero => exact (Nat.not_lt_zero _ hturns).elim
  | succ turns ih =>
    rw [Cursor.skipWhile_eq]
    cases hr : c.read with
    | mk o d =>
      refine .of_firm fun stop firm => (does_read hr).bind ?_
      cases o with
      | none =>
        dsimp only
        rw [Cursor.slot_of_read hr]
        exact does_pure none
      | some r =>
        dsimp only [Option.any]
        by_cases hp : Rune.isBlank r = true
        · rw [if_pos hp, if_pos hp]
          refine ih d ?_
          rw [Cursor.remaining_of_read hr] at hturns
          exact Nat.lt_of_succ_lt_succ hturns
        · rw [if_neg hp, if_neg hp]
          exact (does_unread (l := { l with cursor := c }) firm hr).bind (does_pure (some r))

theorem does_skipBlanks : Does source l skipBlanks l.skipBlanks.ahead l.skipBlanks :=
  does_lexer.bind (does_skipFor l.cursor _ (Nat.lt_succ_self _))

/-- A rune that has just been handed out goes on with the token being built where that starts. -/
theorem does_origin {c : Cursor} (hr : l.cursor.read = (some r, c)) :
    Does source { l with cursor := c } origin (Offset.wrap l.offset) { l with cursor := c } := by
  have hpos := pos_of_read hr
  unfold origin Lexer.offset
  refine does_lexer.bind ?_
  show Does source { l with cursor := c }
    (if l.taken.isEmpty then before (Offset.wrap c.pos) else pure (Offset.wrap l.start)) _ _
  split
  · intro build stop past stands
    have hle : c.pos ≤ source.length := stands.firm.follows.pos_le
    have hrun : (before (Offset.wrap c.pos)).run (watched build { l with cursor := c } stop past)
        = some (Offset.wrap (c.pos - 1), watched build { l with cursor := c } stop past) :=
      run_before (by omega) fun hbuild => Nat.lt_of_le_of_lt hle (stands.room hbuild)
    rw [hpos, Nat.add_sub_cancel] at hrun
    exact ⟨stop, past, hpos ▸ hrun, stands⟩
  · exact does_pure _

theorem does_take {o : Option Char} (hc : l.Contiguous) (ht : l.take = (o, m)) :
    Does source l take o m := by
  unfold Lexer.take at ht
  unfold take
  split at ht
  · rename_i c hr
    cases ht
    exact (does_read hr).bind (does_pure none)
  · rename_i s c hr
    cases ht
    refine .of_firm fun stop firm => (does_read hr).bind ((does_origin hr).bind
      (does_lexer.bind ?_))
    exact (does_pass (by decide) (firm.take hc hr)).bind (does_pure (some s))

/-- The rune that has just been consumed may be given back. -/
theorem does_giveBack {stop : Nat} (firm : Firm source l stop) (hc : l.Contiguous)
    (ht : l.take = (some r, m)) : Does source m giveBack () m.giveBack := by
  unfold Lexer.take at ht
  split at ht
  · cases ht
  · rename_i c hr
    cases ht
    have hread := pos_of_read hr
    have back := firm.giveBack hc hr
    have hpos : (c.unread r).pos + 1 = c.pos := by
      show c.pos - 1 + 1 = c.pos
      omega
    intro build stop past stands
    have hle : c.pos ≤ source.length := stands.firm.follows.pos_le
    have hstop : stop = (c.unread r).pos + 1 := by
      have hstops : stop = l.offset + (l.taken.length + 1) :=
        stands.firm.stops (List.cons_ne_nil _ _)
      unfold Contiguous at hc
      omega
    refine ⟨_, _, run_giveBack rfl (Cursor.slot_of_read hr) (by show 0 < c.pos; omega)
      fun hbuild => Nat.lt_of_le_of_lt hle (stands.room hbuild), ?_⟩
    have between : Stands source build { l with cursor := c.unread r, start := l.offset }
        (c.unread r).pos (⟨.unreadTaken, narrow { l with cursor := c.unread r, start := l.offset },
          Offset.wrap stop⟩ :: past) := by
      refine ⟨back, ?_, stands.room⟩
      intro room n hn
      rcases List.mem_cons.mp hn with rfl | hn
      · rw [hstop]
        exact back.sound_unreadTaken room (by show (c.unread r).pos < source.length; omega)
      · exact stands.past room n hn
    exact between.pass nofun back

/-- Any loop that consumes runes while they go on with the token being built. -/
theorem does_consumeFor {goesOn : Char → List Char → Bool} {run : Lexer → Lexer}
    (hrun : ∀ l, run l = match l.take with
      | (none, m) => m
      | (some r, m) => if goesOn r m.lexeme then run m else m.giveBack)
    (hc : l.Contiguous) (turns : Nat) (hturns : l.cursor.remaining.length < turns) :
    Does source l (consumeFor goesOn turns) (run l).ahead (run l) := by
  induction turns generalizing l with
  | zero => exact (Nat.not_lt_zero _ hturns).elim
  | succ turns ih =>
    rw [hrun]
    cases ht : l.take with
    | mk o m =>
      refine .of_firm fun stop firm => (does_take hc ht).bind (does_lexer.bind ?_)
      cases o with
      | none =>
        dsimp only
        rw [(of_take_none ht).2.2.2]
        exact does_pure none
      | some r =>
        dsimp only [Option.any]
        rw [lexeme_narrow]
        by_cases hg : goesOn r m.lexeme = true
        · rw [if_pos hg, if_pos hg]
          refine ih ((took_take ht).contiguous hc) ?_
          rw [remaining_of_take ht] at hturns
          exact Nat.lt_of_succ_lt_succ hturns
        · rw [if_neg hg, if_neg hg, (of_take_giveBack ht).2.2]
          exact (does_giveBack firm hc ht).bind (does_pure (some r))

theorem does_consume {goesOn : Char → List Char → Bool} {run : Lexer → Lexer}
    (hrun : ∀ l, run l = match l.take with
      | (none, m) => m
      | (some r, m) => if goesOn r m.lexeme then run m else m.giveBack) (hc : l.Contiguous) :
    Does source l (consume goesOn) (run l).ahead (run l) :=
  does_lexer.bind (does_consumeFor hrun hc _ (Nat.lt_succ_self _))

theorem does_takeRun (p : Char → Bool) (hc : l.Contiguous) :
    Does source l (takeRun p) (l.takeRun p).ahead (l.takeRun p) :=
  does_consume (takeRun_eq p) hc

theorem does_munch (arity : Arity) (hc : l.Contiguous) :
    Does source l (munch arity) (l.munch arity).ahead (l.munch arity) :=
  does_consume (munch_eq arity) hc

/-- A token is finished where it stops, which is as many runes behind its start as it has. -/
theorem does_emit (kind : Kind) (hn : l.taken ≠ []) :
    Does source l (emit kind) () (l.emit kind) := by
  intro build stop past stands
  have follows : (l.emit kind).cursor.Follows source := stands.firm.follows
  have firm : Firm source (l.emit kind) stop := .of_nil follows rfl stop
  refine ⟨stop, ⟨.other, narrow (l.emit kind), Offset.wrap stop⟩ :: past, ?_,
    stands.pass nofun firm⟩
  unfold watched
  rw [← narrow_emit kind (stands.firm.stops hn)]
  rfl

/-- A change of what is expected and counted is the same for what is kept. -/
theorem does_turn {change : Lexer → Lexer} (hkept : change (narrow l) = narrow m)
    (hc : m.cursor = l.cursor) (ht : m.taken = l.taken) (hs : m.start = l.start) :
    Does source l (turn change) () m :=
  does_adjust (by decide) hkept fun _ firm => firm.recast hc ht hs

theorem does_goto (state : State) : Does source l (goto state) () (l.goto state) :=
  does_turn rfl rfl rfl rfl

theorem does_halt : Does source l halt () l.halt :=
  does_turn rfl rfl rfl rfl

theorem does_fail (problem : Problem) : Does source l (fail problem) () (l.fail problem) :=
  does_adjust (by decide) (narrow_fail problem) fun stop firm =>
    .of_nil (l := l.fail problem) firm.follows rfl stop

end Narrow

end Lexer

end ExprYard
