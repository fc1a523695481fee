import ExprYard.Lexer.Step
import ExprYard.Lexer.Lemmas
import ExprYard.Lexer.Progress

/-!
# Tokens as tiles

Tokens tile a text when they cover it from left to right, with nothing but blanks before, between
and after them, and each of them has the text that it covers. `Tiles` is that relation between a
stretch of runes, the offset at which it starts, and the tokens on it.

The moves of a lexer are then said of what no token covers yet: `unspent` are those runes and
`offset` is where they start. A move that consumes runes into the token being built leaves both as
they are (`Took`), a skip drops blanks from them, and finishing a token lays one tile. `Covers`
joins such moves: between two moments of a lexer, tokens tile the runes that are spent.
-/

namespace ExprYard

/-! ## The relation -/

/-- The tokens tile the runes, which start at an offset of a named input. -/
inductive Tiles (file : String) : Nat → List Char → List Token → Prop where
  /-- Blanks need no token. -/
  | blanks {offset : Nat} {runes : List Char} (blank : ∀ r ∈ runes, Rune.isBlank r = true) :
      Tiles file offset runes []
  /-- After some blanks a token lies on the runes of its text. -/
  | token {offset : Nat} {gap word rest : List Char} {t : Token} {ts : List Token}
      (blank : ∀ r ∈ gap, Rune.isBlank r = true) (nonempty : word ≠ [])
      (text : t.text = String.ofList word)
      (span : t.span = ⟨offset + gap.length, offset + gap.length + word.length, file⟩)
      (tail : Tiles file (offset + gap.length + word.length) rest ts) :
      Tiles file offset (gap ++ (word ++ rest)) (t :: ts)

namespace Tiles

variable {file : String}

/-- Blanks in front of a tiling change nothing. -/
theorem prepend_blanks {offset : Nat} {gap runes : List Char} {ts : List Token}
    (blank : ∀ r ∈ gap, Rune.isBlank r = true) (h : Tiles file (offset + gap.length) runes ts) :
    Tiles file offset (gap ++ runes) ts := by
  cases h with
  | blanks hb =>
    refine .blanks fun r hr => ?_
    rcases List.mem_append.mp hr with hr | hr
    · exact blank r hr
    · exact hb r hr
  | @token _ gap' word rest t ts hb nonempty text span tail =>
    rw [← List.append_assoc]
    have hlen : offset + (gap ++ gap').length = offset + gap.length + gap'.length := by
      rw [List.length_append]
      omega
    refine .token (fun r hr => ?_) nonempty text (by rw [span, hlen]) (by rw [hlen]; exact tail)
    rcases List.mem_append.mp hr with hr | hr
    · exact blank r hr
    · exact hb r hr

/-- One tiling after another. -/
theorem append {offset : Nat} {runes more : List Char} {ts us : List Token}
    (h : Tiles file offset runes ts) (g : Tiles file (offset + runes.length) more us) :
    Tiles file offset (runes ++ more) (ts ++ us) := by
  induction h with
  | blanks hb => exact prepend_blanks hb g
  | @token offset gap word rest t ts hb nonempty text span tail ih =>
    have hlen : offset + (gap ++ (word ++ rest)).length
        = offset + gap.length + word.length + rest.length := by
      simp only [List.length_append]
      omega
    rw [hlen] at g
    have hrest := ih g
    rw [List.append_assoc, List.append_assoc]
    exact .token hb nonempty text span hrest

/-- A single token that lies on all of the runes. -/
theorem single {offset : Nat} {word : List Char} {t : Token} (nonempty : word ≠ [])
    (text : t.text = String.ofList word) (span : t.span = ⟨offset, offset + word.length, file⟩) :
    Tiles file offset word [t] := by
  have h : Tiles file offset ([] ++ (word ++ [])) [t] :=
    .token (by simp) nonempty text (by simpa using span) (.blanks (by simp))
  simpa using h

end Tiles

/-! ## What is not spent -/

namespace Lexer

/-- The runes that no token covers yet: those of the token being built, and those that remain. -/
def unspent (l : Lexer) : List Char :=
  l.lexeme ++ l.cursor.remaining

/-- Where the runes start that no token covers yet. -/
def offset (l : Lexer) : Nat :=
  if l.taken.isEmpty then l.cursor.pos else l.start

/-- No rune has been skipped since the token being built was started. -/
def Contiguous (l : Lexer) : Prop :=
  l.cursor.pos = l.offset + l.taken.length

theorem offset_of_nil {l : Lexer} (h : l.taken = []) : l.offset = l.cursor.pos := by
  simp [offset, h]

theorem offset_of_ne_nil {l : Lexer} (h : l.taken ≠ []) : l.offset = l.start := by
  simp [offset, h]

theorem unspent_of_nil {l : Lexer} (h : l.taken = []) : l.unspent = l.cursor.remaining := by
  simp [unspent, lexeme, h]

theorem contiguous_of_nil {l : Lexer} (h : l.taken = []) : l.Contiguous := by
  simp [Contiguous, offset_of_nil h, h]

/-! ## Consuming runes -/

/-- The lexer `m` is `l` after it has consumed the runes `w` into the token being built. -/
structure Took (l : Lexer) (w : List Char) (m : Lexer) : Prop where
  remaining : l.cursor.remaining = w ++ m.cursor.remaining
  lexeme : m.lexeme = l.lexeme ++ w
  pos : m.cursor.pos = l.cursor.pos + w.length
  offset : m.offset = l.offset
  same : m = { l with cursor := m.cursor, taken := m.taken, start := m.start }

namespace Took

variable {l m n : Lexer} {v w : List Char}

theorem trans (h : Took l v m) (g : Took m w n) : Took l (v ++ w) n where
  remaining := by rw [h.remaining, g.remaining, List.append_assoc]
  lexeme := by rw [g.lexeme, h.lexeme, List.append_assoc]
  pos := by rw [g.pos, h.pos, List.length_append, Nat.add_assoc]
  offset := g.offset.trans h.offset
  same := by
    have hg := g.same
    rw [h.same] at hg
    exact hg

theorem unspent (h : Took l w m) : m.unspent = l.unspent := by
  rw [Lexer.unspent, Lexer.unspent, h.lexeme, h.remaining, List.append_assoc]

theorem length_taken (h : Took l w m) : m.taken.length = l.taken.length + w.length := by
  simpa [Lexer.lexeme] using congrArg List.length h.lexeme

theorem contiguous (h : Took l w m) (hl : l.Contiguous) : m.Contiguous := by
  have hlen := h.length_taken
  unfold Contiguous at hl ⊢
  rw [h.pos, h.offset, hl, hlen, Nat.add_assoc]

theorem taken_ne_nil (h : Took l w m) (hw : l.taken ≠ [] ∨ w ≠ []) : m.taken ≠ [] := by
  intro hm
  have hlen := h.length_taken
  rw [hm, List.length_nil] at hlen
  rcases hw with hw | hw
  · have := List.length_pos_iff.mpr hw
    omega
  · have := List.length_pos_iff.mpr hw
    omega

end Took

theorem pos_of_read {c d : Cursor} {r : Char} (h : c.read = (some r, d)) : d.pos = c.pos + 1 := by
  unfold Cursor.read at h
  split at h <;> cases h <;> rfl

theorem took_take {l m : Lexer} {r : Char} (h : l.take = (some r, m)) : Took l [r] m := by
  have hr := remaining_of_take h
  have ht := taken_of_take h
  unfold take at h
  split at h
  · cases h
  · rename_i s c hc
    cases h
    refine ⟨hr, by simp [lexeme], pos_of_read hc, ?_, rfl⟩
    by_cases hn : l.taken = []
    · simp [offset, hn]
    · simp [offset, hn]

/-- Consuming a rune and giving it back is consuming none. -/
theorem took_giveBack {l m : Lexer} {r : Char} (h : l.take = (some r, m)) :
    Took l [] m.giveBack := by
  obtain ⟨hr, ht, -⟩ := of_take_giveBack h
  unfold take at h
  split at h
  · cases h
  · rename_i s c hc
    cases h
    have hpos : c.pos - 1 = l.cursor.pos := by rw [pos_of_read hc, Nat.add_sub_cancel]
    refine ⟨hr.symm, (congrArg List.reverse ht).trans (List.append_nil _).symm, hpos, ?_, rfl⟩
    by_cases hn : l.taken = []
    · simp [offset, giveBack, Cursor.unread, hn, hpos]
    · simp [offset, giveBack, hn]

theorem took_none {l m : Lexer} (h : l.take = (none, m)) : Took l [] m := by
  obtain ⟨hl, hm, ht, -⟩ := of_take_none h
  unfold take at h
  split at h
  · rename_i c hc
    cases h
    obtain ⟨-, rfl⟩ := Cursor.remaining_of_read_none hc
    exact ⟨by rw [hl, hm]; rfl, by simp [lexeme], rfl, rfl, rfl⟩
  · cases h

theorem took_takeOne {l : Lexer} {r : Char} (h : l.ahead = some r) : Took l [r] l.takeOne :=
  took_take (take_of_ahead h)

theorem took_takeRun (p : Char → Bool) (l : Lexer) :
    Took l (l.cursor.remaining.takeWhile p) (l.takeRun p) := by
  fun_induction takeRun p l with
  | case1 l m h =>
    rw [(of_take_none h).1]
    exact took_none h
  | case2 l r m h hp ih =>
    rw [remaining_of_take h, List.takeWhile_cons_of_pos hp]
    exact (took_take h).trans ih
  | case3 l r m h hp =>
    rw [remaining_of_take h, List.takeWhile_cons_of_neg hp]
    exact took_giveBack h

theorem took_munch (arity : Arity) (l : Lexer) : ∃ w, Took l w (l.munch arity) := by
  fun_induction munch arity l with
  | case1 l m h => exact ⟨[], took_none h⟩
  | case2 l r m h hp ih =>
    obtain ⟨w, hw⟩ := ih
    exact ⟨[r] ++ w, (took_take h).trans hw⟩
  | case3 l r m h hp => exact ⟨[], took_giveBack h⟩

theorem took_peek (l : Lexer) : Took l [] l.peek := by
  have hpos : l.cursor.peek.pos = l.cursor.pos := by
    unfold Cursor.peek
    split
    · rename_i c hc
      rw [(Cursor.remaining_of_read_none hc).2]
    · rename_i r c hc
      show c.pos - 1 = l.cursor.pos
      rw [pos_of_read hc, Nat.add_sub_cancel]
  refine ⟨(remaining_peek l).symm, by simp [lexeme, peek], hpos, ?_, rfl⟩
  unfold offset
  rw [show l.peek.cursor.pos = l.cursor.pos from hpos]
  rfl

/-! ## Spending runes -/

/-- Between `l` and `m` the tokens tile the runes that are spent. -/
structure Covers (l : Lexer) (ts : List Token) (m : Lexer) : Prop where
  file : m.file = l.file
  spent : ∃ w, l.unspent = w ++ m.unspent ∧ m.offset = l.offset + w.length ∧
    Tiles l.file l.offset w ts

namespace Covers

variable {l m n : Lexer} {ts us : List Token}

theorem trans (h : Covers l ts m) (g : Covers m us n) : Covers l (ts ++ us) n := by
  obtain ⟨v, hv, hvo, hvt⟩ := h.spent
  obtain ⟨w, hw, hwo, hwt⟩ := g.spent
  refine ⟨g.file.trans h.file, v ++ w, ?_, ?_, ?_⟩
  · rw [hv, hw, List.append_assoc]
  · rw [hwo, hvo, List.length_append, Nat.add_assoc]
  · rw [h.file, hvo] at hwt
    exact hvt.append hwt

/-- What is spent does not depend on what is expected and counted. -/
theorem recast {m' : Lexer} (h : Covers l ts m) (hc : m'.cursor = m.cursor)
    (ht : m'.taken = m.taken) (hs : m'.start = m.start) (hf : m'.file = m.file) :
    Covers l ts m' where
  file := hf.trans h.file
  spent := by
    have hu : m'.unspent = m.unspent := by rw [unspent, lexeme, ht, hc, unspent, lexeme]
    have ho : m'.offset = m.offset := by rw [offset, ht, hc, hs, offset]
    rw [hu, ho]
    exact h.spent

end Covers

theorem Took.covers {l m : Lexer} {w : List Char} (h : Took l w m) : Covers l [] m where
  file := by rw [h.same]
  spent := ⟨[], h.unspent.symm, by rw [h.offset]; rfl, .blanks (by simp)⟩

/-- The runes in front of those that a cursor finds after a skip. -/
theorem remaining_eq_skipped (l : Lexer) :
    l.cursor.remaining = l.cursor.remaining.takeWhile Rune.isBlank
      ++ l.skipBlanks.cursor.remaining := by
  rw [remaining_skipBlanks, List.takeWhile_append_dropWhile]

theorem isBlank_of_mem_skipped {runes : List Char} :
    ∀ r ∈ runes.takeWhile Rune.isBlank, Rune.isBlank r = true :=
  List.all_eq_true.mp List.all_takeWhile

theorem pos_skipWhile (p : Char → Bool) (c : Cursor) :
    (c.skipWhile p).pos = c.pos + (c.remaining.takeWhile p).length := by
  fun_induction Cursor.skipWhile p c with
  | case1 c d h =>
    obtain ⟨hr, rfl⟩ := Cursor.remaining_of_read_none h
    rw [hr]
    rfl
  | case2 c r d h hp ih =>
    rw [ih, pos_of_read h, Cursor.remaining_of_read h, List.takeWhile_cons_of_pos hp,
      List.length_cons]
    omega
  | case3 c r d h hp =>
    rw [Cursor.remaining_of_read h, List.takeWhile_cons_of_neg hp]
    show d.pos - 1 = c.pos
    rw [pos_of_read h, Nat.add_sub_cancel]

/-- Between tokens a skip spends blanks. -/
theorem covers_skipBlanks {l : Lexer} (h : l.taken = []) : Covers l [] l.skipBlanks where
  file := rfl
  spent := by
    have hs : l.skipBlanks.taken = [] := h
    refine ⟨l.cursor.remaining.takeWhile Rune.isBlank, ?_, ?_, .blanks isBlank_of_mem_skipped⟩
    · rw [unspent_of_nil h, unspent_of_nil hs]
      exact remaining_eq_skipped l
    · rw [offset_of_nil h, offset_of_nil hs]
      exact pos_skipWhile Rune.isBlank l.cursor

/-- The token that the token being built is finished as. -/
def finished (kind : Kind) (l : Lexer) : Token :=
  ⟨kind, String.ofList l.lexeme, l.start, l.start + l.taken.length, l.file⟩

/-- Finishing a token spends its runes. -/
theorem covers_emit {l : Lexer} (kind : Kind) (hc : l.Contiguous) (hn : l.taken ≠ []) :
    Covers l [l.finished kind] (l.emit kind) where
  file := rfl
  spent := by
    have he : (l.emit kind).taken = [] := rfl
    have hlen : l.lexeme.length = l.taken.length := List.length_reverse
    have ho := offset_of_ne_nil hn
    refine ⟨l.lexeme, ?_, ?_, ?_⟩
    · rw [unspent_of_nil he]
      rfl
    · rw [offset_of_nil he, hlen]
      exact hc
    · refine Tiles.single ?_ rfl (by rw [hlen, ho]; rfl)
      simpa [lexeme] using hn

/-- A token may be finished after the blanks behind it have been skipped. -/
theorem covers_emit_skipBlanks {l : Lexer} (kind : Kind) (hc : l.Contiguous) (hn : l.taken ≠ []) :
    Covers l [l.finished kind] (l.skipBlanks.emit kind) := by
  have same : l.skipBlanks.emit kind = (l.emit kind).skipBlanks := rfl
  have h := (covers_emit kind hc hn).trans (covers_skipBlanks (l := l.emit kind) rfl)
  rw [same]
  exact h

end Lexer

end ExprYard
