import ExprYard.Proofs.Lexer.Routines

/-!
# A lexer heeds only what it has read

What a lexer does depends on the runes it reads and on nothing behind them: not on the runes that
its input would give next, not on whether the input has said that it is over, and not on the tokens
that are finished already. `amid` puts a lexer into such surroundings, and a move is `Incremental`
when it does there what it does alone.

The one proviso is the end of the input. A lexer that reads past the runes it was given has noticed
that there are none, and would have gone on had there been more; `Cursor.ended` records that. So a
move is the same before further runes only where it has not come to the end of its own.

Every state of the lexer is put together from a few moves (`Routine`), so the proof is one case for
each move and one for each way to put moves together (`Routine.incremental`). What chooses among
moves is what is in sight, and more around a lexer leaves that as it is (`sight_amid`).
-/

namespace ExprYard

/-! ## Cursors -/

namespace Cursor

/-- The cursor of an input that gives `later` after its runes, and that has said that it is at its
end if `told`. -/
def amid (later : List Char) (told : Bool) (c : Cursor) : Cursor :=
  { c with feed := c.feed ++ later, ended := c.ended || told }

/-- The end of an input, once noticed, stays noticed. -/
theorem ended_read {c : Cursor} (h : c.ended = true) : c.read.2.ended = true := by
  unfold read
  split <;> simp [h]

theorem ended_unread (c : Cursor) (r : Char) : (c.unread r).ended = c.ended := rfl

/-- Reading is incremental. -/
theorem read_amid {later : List Char} (told : Bool) {c : Cursor}
    (h : later = [] ∨ c.read.2.ended = false) :
    (c.amid later told).read = (c.read.1, c.read.2.amid later told) := by
  obtain ⟨feed, slot, pulled, pos, ended⟩ := c
  cases slot with
  | some r => rfl
  | none =>
    cases feed with
    | cons r feed => rfl
    | nil =>
      rcases h with rfl | h
      · rfl
      · simp [read] at h

theorem unread_amid (later : List Char) (told : Bool) (c : Cursor) (r : Char) :
    (c.amid later told).unread r = (c.unread r).amid later told := rfl

theorem ended_peek {c : Cursor} (h : c.ended = true) : c.peek.ended = true := by
  have hr := ended_read h
  unfold peek
  split <;> rename_i hc <;> simpa [hc, ended_unread] using hr

theorem peek_amid {later : List Char} {told : Bool} {c : Cursor}
    (h : later = [] ∨ c.peek.ended = false) :
    (c.amid later told).peek = c.peek.amid later told := by
  cases hc : c.read with
  | mk o d =>
    have hp : c.peek.ended = d.ended := by
      unfold peek
      rw [hc]
      cases o <;> rfl
    have hr := read_amid told (show later = [] ∨ c.read.2.ended = false by
      rw [hc, ← hp]
      exact h)
    unfold peek
    rw [hr, hc]
    cases o <;> rfl

theorem skipWhile_eq (p : Char → Bool) (c : Cursor) :
    c.skipWhile p = match c.read with
      | (none, d) => d
      | (some r, d) => if p r then d.skipWhile p else d.unread r := by
  rw [skipWhile]
  split <;> rename_i h <;> rw [h]

theorem ended_skipWhile {p : Char → Bool} {c : Cursor} (h : c.ended = true) :
    (c.skipWhile p).ended = true := by
  fun_induction skipWhile p c with
  | case1 c d hc => simpa [hc] using ended_read h
  | case2 c r d hc hp ih => exact ih (by simpa [hc] using ended_read h)
  | case3 c r d hc hp => simpa [hc, ended_unread] using ended_read h

theorem skipWhile_amid {p : Char → Bool} {later : List Char} {told : Bool} {c : Cursor}
    (h : later = [] ∨ (c.skipWhile p).ended = false) :
    (c.amid later told).skipWhile p = (c.skipWhile p).amid later told := by
  fun_induction skipWhile p c with
  | case1 c d hc =>
    have hr := read_amid told (show later = [] ∨ c.read.2.ended = false by
      rw [hc]
      exact h)
    rw [skipWhile_eq, hr, hc]
  | case2 c r d hc hp ih =>
    have hd : later = [] ∨ d.ended = false := h.imp_right fun hs =>
      Bool.eq_false_iff.mpr fun hd => Bool.eq_false_iff.mp hs (ended_skipWhile hd)
    have hr := read_amid told (show later = [] ∨ c.read.2.ended = false by
      rw [hc]
      exact hd)
    rw [skipWhile_eq, hr, hc]
    simp only [hp, if_true]
    exact ih h
  | case3 c r d hc hp =>
    have hr := read_amid told (show later = [] ∨ c.read.2.ended = false by
      rw [hc]
      exact h)
    rw [skipWhile_eq, hr, hc]
    simp only [hp, if_false, Bool.false_eq_true]
    exact unread_amid later told d r

end Cursor

/-! ## Lexers -/

namespace Lexer

/-- The lexer with `earlier` tokens finished before its own, before an input that gives `later`
after its runes, and that has said that it is at its end if `told`. -/
def amid (earlier : List Token) (later : List Char) (told : Bool) (l : Lexer) : Lexer :=
  { l with queue := earlier ++ l.queue, cursor := l.cursor.amid later told }

/-- A move that does amid more what it does alone, unless it has come to the end of its runes while
there are more. -/
structure Incremental (move : Lexer → Lexer) : Prop where
  ended : ∀ l, l.cursor.ended = true → (move l).cursor.ended = true
  amid : ∀ (earlier : List Token) (later : List Char) (told : Bool) (l : Lexer),
    later = [] ∨ (move l).cursor.ended = false →
      move (l.amid earlier later told) = (move l).amid earlier later told

variable {f g : Lexer → Lexer}

/-- Where a move has not come to the end, the lexer before it had not. -/
theorem Incremental.not_ended (hf : Incremental f) {l : Lexer}
    (h : (f l).cursor.ended = false) : l.cursor.ended = false :=
  Bool.eq_false_iff.mpr fun hl => Bool.eq_false_iff.mp h (hf.ended l hl)

/-- A move after a move. -/
theorem Incremental.after (hg : Incremental g) (hf : Incremental f) :
    Incremental fun l => g (f l) where
  ended l h := hg.ended _ (hf.ended l h)
  amid earlier later told l h := by
    rw [hf.amid earlier later told l (h.imp_right hg.not_ended)]
    exact hg.amid earlier later told (f l) h

/-- More around a lexer leaves what is in sight as it is. -/
theorem sight_amid (earlier : List Token) (later : List Char) (told : Bool) (l : Lexer) :
    (l.amid earlier later told).sight = l.sight := rfl

/-- A move that goes on from what another does, with one of several moves. What is in sight chooses
which. -/
theorem Incremental.choose {first move : Lexer → Lexer} {g : Sight → Lexer → Lexer}
    (hf : Incremental first) (hg : ∀ v, Incremental (g v))
    (same : ∀ l, move l = g (first l).sight (first l)) : Incremental move where
  ended l h := by
    rw [same l]
    exact (hg _).ended _ (hf.ended l h)
  amid earlier later told l h := by
    rw [same l] at h ⊢
    have hamid := hf.amid earlier later told l (h.imp_right (hg _).not_ended)
    rw [same, hamid, sight_amid]
    exact (hg _).amid earlier later told (first l) h

/-! ### Moves -/

theorem take_amid {earlier : List Token} {later : List Char} {told : Bool} {l : Lexer}
    (h : later = [] ∨ l.take.2.cursor.ended = false) :
    (l.amid earlier later told).take = (l.take.1, l.take.2.amid earlier later told) := by
  cases hc : l.cursor.read with
  | mk o d =>
    have ht : l.take.2.cursor = d := by
      unfold take
      rw [hc]
      cases o <;> rfl
    have hr := Cursor.read_amid told (show later = [] ∨ l.cursor.read.2.ended = false by
      rw [hc, ← ht]
      exact h)
    unfold take
    rw [show (l.amid earlier later told).cursor = l.cursor.amid later told from rfl, hr, hc]
    cases o <;> rfl

theorem ended_take {l : Lexer} (h : l.cursor.ended = true) : l.take.2.cursor.ended = true := by
  have hr := Cursor.ended_read h
  unfold take
  split <;> rename_i hc <;> simpa [hc] using hr

theorem giveBack_amid (earlier : List Token) (later : List Char) (told : Bool) (l : Lexer) :
    (l.amid earlier later told).giveBack = l.giveBack.amid earlier later told := by
  obtain ⟨c, taken, start, parens, outer, state, queue, error, file⟩ := l
  cases taken <;> rfl

theorem ended_giveBack (l : Lexer) : l.giveBack.cursor.ended = l.cursor.ended := by
  unfold giveBack
  split <;> rfl

theorem incremental_takeOne : Incremental takeOne where
  ended _ := ended_take
  amid _ _ _ _ h := congrArg Prod.snd (take_amid h)

theorem incremental_peek : Incremental peek where
  ended _ := Cursor.ended_peek
  amid earlier later told l h := by
    unfold peek
    rw [show (l.amid earlier later told).cursor = l.cursor.amid later told from rfl,
      Cursor.peek_amid h]
    rfl

theorem incremental_skipBlanks : Incremental skipBlanks where
  ended _ := Cursor.ended_skipWhile
  amid earlier later told l h := by
    unfold skipBlanks
    rw [show (l.amid earlier later told).cursor = l.cursor.amid later told from rfl,
      Cursor.skipWhile_amid h]
    rfl

theorem takeRun_eq (p : Char → Bool) (l : Lexer) :
    l.takeRun p = match l.take with
      | (none, m) => m
      | (some r, m) => if p r then m.takeRun p else m.giveBack := by
  rw [takeRun]
  split <;> rename_i h <;> rw [h]

theorem munch_eq (arity : Arity) (l : Lexer) :
    l.munch arity = match l.take with
      | (none, m) => m
      | (some r, m) =>
        if Rune.inOperator r && Operator.begins m.lexeme arity then m.munch arity
        else m.giveBack := by
  rw [munch]
  split <;> rename_i h <;> rw [h]

theorem ended_takeRun {p : Char → Bool} {l : Lexer} (h : l.cursor.ended = true) :
    (l.takeRun p).cursor.ended = true := by
  fun_induction takeRun p l with
  | case1 l m hm => simpa [hm] using ended_take h
  | case2 l r m hm hp ih => exact ih (by simpa [hm] using ended_take h)
  | case3 l r m hm hp => simpa [hm, ended_giveBack] using ended_take h

theorem incremental_takeRun (p : Char → Bool) : Incremental (takeRun p) where
  ended _ := ended_takeRun
  amid earlier later told l h := by
    fun_induction takeRun p l with
    | case1 l m hm =>
      rw [takeRun_eq, take_amid (by rw [hm]; exact h), hm]
    | case2 l r m hm hp ih =>
      have hn : later = [] ∨ m.cursor.ended = false := h.imp_right fun hs =>
        Bool.eq_false_iff.mpr fun hn => Bool.eq_false_iff.mp hs (ended_takeRun hn)
      rw [takeRun_eq, take_amid (by rw [hm]; exact hn), hm]
      simp only [hp, if_true]
      exact ih h
    | case3 l r m hm hp =>
      rw [ended_giveBack] at h
      rw [takeRun_eq, take_amid (by rw [hm]; exact h), hm]
      simp only [hp, if_false, Bool.false_eq_true]
      exact giveBack_amid earlier later told m

theorem ended_munch {arity : Arity} {l : Lexer} (h : l.cursor.ended = true) :
    (l.munch arity).cursor.ended = true := by
  fun_induction munch arity l with
  | case1 l m hm => simpa [hm] using ended_take h
  | case2 l r m hm hp ih => exact ih (by simpa [hm] using ended_take h)
  | case3 l r m hm hp => simpa [hm, ended_giveBack] using ended_take h

theorem incremental_munch (arity : Arity) : Incremental (munch arity) where
  ended _ := ended_munch
  amid earlier later told l h := by
    fun_induction munch arity l with
    | case1 l m hm =>
      rw [munch_eq, take_amid (by rw [hm]; exact h), hm]
    | case2 l r m hm hp ih =>
      have hn : later = [] ∨ m.cursor.ended = false := h.imp_right fun hs =>
        Bool.eq_false_iff.mpr fun hn => Bool.eq_false_iff.mp hs (ended_munch hn)
      have hl : (m.amid earlier later told).lexeme = m.lexeme := rfl
      rw [munch_eq, take_amid (by rw [hm]; exact hn), hm]
      simp only [hl, hp, if_true]
      exact ih h
    | case3 l r m hm hp =>
      have hl : (m.amid earlier later told).lexeme = m.lexeme := rfl
      rw [ended_giveBack] at h
      rw [munch_eq, take_amid (by rw [hm]; exact h), hm]
      simp only [hl, hp, if_false, Bool.false_eq_true]
      exact giveBack_amid earlier later told m

theorem incremental_emit (kind : Kind) : Incremental (emit kind) where
  ended _ h := h
  amid earlier later told l _ := by
    simp [emit, Lexer.amid, lexeme]

theorem incremental_fail (problem : Problem) : Incremental (fail problem) where
  ended _ h := h
  amid earlier later told l _ := by
    simp [fail, Lexer.amid, Cursor.amid]

/-- What is put together from moves is incremental. -/
theorem Routine.incremental {move : Lexer → Lexer} (h : Routine move) : Incremental move := by
  induction h with
  | rest => exact ⟨fun _ h => h, fun _ _ _ _ _ => rfl⟩
  | takeOne => exact incremental_takeOne
  | peek => exact incremental_peek
  | skipBlanks => exact incremental_skipBlanks
  | takeRun p => exact incremental_takeRun p
  | munch arity => exact incremental_munch arity
  | emit kind => exact incremental_emit kind
  | fail problem => exact incremental_fail problem
  | expect state => exact ⟨fun _ h => h, fun _ _ _ _ _ => rfl⟩
  | recount parens outer => exact ⟨fun _ h => h, fun _ _ _ _ _ => rfl⟩
  | after _ _ hg hf => exact hg.after hf
  | choose _ _ same hf hg => exact hf.choose hg same

/-- What a lexer does in a step depends on the runes it reads and on nothing behind them. -/
theorem incremental_step : Incremental step :=
  routine_step.incremental

end Lexer

end ExprYard
