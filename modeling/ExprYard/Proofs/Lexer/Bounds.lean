import ExprYard.Proofs.Lexer.Narrowing

/-!
# No lexer oversteps its bounds

Before a source that has an offset for each of its runes a narrow lexer is the lexer: whatever a
lexer has noted stands before its place (`Within`), so what is kept of it is all of it. There
neither build comes to nothing, and the lexer is sound after each of its strokes
(`strokes_within_bounds`). A rune that is taken back finds the slot free because every look, skip and
run takes back one rune only, the one that it has just been handed, and whatever reads next empties
the slot.

There is one stroke after which a token is not where it stops: the one that takes back its last rune.
-/

namespace ExprYard

/-- A token starts and stops at an offset up to `n`. -/
def Token.Within (n : Nat) (t : Token) : Prop :=
  t.span.start ≤ n ∧ t.span.stop ≤ n

theorem Token.Within.mono {n k : Nat} {t : Token} (h : t.Within n) (hk : n ≤ k) : t.Within k :=
  ⟨Nat.le_trans h.1 hk, Nat.le_trans h.2 hk⟩

theorem Token.Within.relocate_narrow {n : Nat} {t : Token} (h : t.Within n)
    (hn : n < UInt32.size) : t.relocate .narrow = t := by
  obtain ⟨kind, text, start, stop, file⟩ := t
  have hstart : Offset.wrap start = start := Offset.wrap_of_lt (Nat.lt_of_le_of_lt h.1 hn)
  have hstop : Offset.wrap stop = stop := Offset.wrap_of_lt (Nat.lt_of_le_of_lt h.2 hn)
  show (⟨kind, text, Offset.wrap start, Offset.wrap stop, file⟩ : Token) = _
  rw [hstart, hstop]

theorem Diagnostic.relocate_narrow_of_le {n : Nat} {d : Diagnostic} (h : d.position.offset ≤ n)
    (hn : n < UInt32.size) : d.relocate .narrow = d := by
  obtain ⟨problem, offset, file⟩ := d
  have hoffset : Offset.wrap offset = offset := Offset.wrap_of_lt (Nat.lt_of_le_of_lt h hn)
  show (⟨problem, Offset.wrap offset, file⟩ : Diagnostic) = _
  rw [hoffset]

theorem map_relocate_narrow {n : Nat} {ts : List Token} (h : ∀ t ∈ ts, t.Within n)
    (hn : n < UInt32.size) : ts.map (Token.relocate .narrow) = ts :=
  (List.map_congr_left fun t ht => (h t ht).relocate_narrow hn).trans (List.map_id ts)

namespace Lexer

variable {source : List Char} {file : String} {l m : Lexer} {n : Nat}

/-! ## What a lexer has noted -/

/-- Whatever a lexer has noted stands before its place, and with the runes to come that is `n` runes
behind the first. -/
structure Within (n : Nat) (l : Lexer) : Prop where
  place : l.cursor.pos + l.cursor.remaining.length = n
  start : l.start + l.taken.length ≤ l.cursor.pos
  queue : ∀ t ∈ l.queue, t.Within l.cursor.pos
  error : ∀ d, l.error = some d → d.position.offset ≤ l.cursor.pos

namespace Within

theorem ofRunes (source : List Char) (file : String) :
    Within source.length (ofRunes source file) where
  place := Nat.zero_add _
  start := Nat.le_refl 0
  queue := by
    intro t ht
    cases ht
  error := by
    intro d hd
    cases hd

theorem pos_le (h : Within n l) : l.cursor.pos ≤ n := by
  have hplace := h.place
  omega

/-- A lexer that moves on and notes nothing new. -/
theorem moves {c : Cursor} (h : Within n l)
    (hplace : c.pos + c.remaining.length = l.cursor.pos + l.cursor.remaining.length)
    (hpos : l.cursor.pos ≤ c.pos) {taken : List Char} {start : Nat}
    (hstart : start + taken.length ≤ c.pos) :
    Within n { l with cursor := c, taken, start } where
  place := hplace.trans h.place
  start := hstart
  queue t ht := (h.queue t ht).mono hpos
  error d hd := Nat.le_trans (h.error d hd) hpos

theorem emit (h : Within n l) (kind : Kind) : Within n (l.emit kind) where
  place := h.place
  start := by
    have hstart := h.start
    show l.start + 0 ≤ l.cursor.pos
    omega
  queue := by
    intro t ht
    rcases List.mem_append.mp ht with ht | ht
    · exact h.queue t ht
    · rw [List.mem_singleton.mp ht]
      exact ⟨Nat.le_of_add_right_le h.start, h.start⟩
  error := h.error

theorem fail (h : Within n l) (problem : Problem) : Within n (l.fail problem) := by
  have hoffset : (if l.taken.isEmpty then l.cursor.pos else l.start) ≤ l.cursor.pos := by
    have hstart := h.start
    split <;> omega
  refine ⟨h.place, ?_, ?_, ?_⟩
  · have hstart := h.start
    show l.start + 0 ≤ l.cursor.pos
    omega
  · intro t ht
    rcases List.mem_append.mp ht with ht | ht
    · exact h.queue t ht
    · rw [List.mem_singleton.mp ht]
      exact ⟨hoffset, hoffset⟩
  · intro d hd
    cases hd
    exact hoffset

/-- What is kept of a lexer whose place has an offset is all of it. -/
theorem narrow_eq (h : Within n l) (hpos : l.cursor.pos < UInt32.size) : Narrow.narrow l = l := by
  have hkept : ∀ {k}, k ≤ l.cursor.pos → Offset.wrap k = k := fun hk =>
    Offset.wrap_of_lt (Nat.lt_of_le_of_lt hk hpos)
  have hcursor : l.cursor.narrow = l.cursor := by
    unfold Cursor.narrow
    rw [hkept (Nat.le_refl _)]
  have herror : l.error.map (Diagnostic.relocate .narrow) = l.error := by
    cases hd : l.error with
    | none => rfl
    | some d => exact congrArg some (Diagnostic.relocate_narrow_of_le (h.error d hd) hpos)
  unfold Narrow.narrow
  rw [hcursor, hkept (Nat.le_of_add_right_le h.start), herror, map_relocate_narrow h.queue hpos]

end Within

theorem place_read (c : Cursor) :
    c.read.2.pos + c.read.2.remaining.length = c.pos + c.remaining.length := by
  cases hr : c.read with
  | mk o d =>
    cases o with
    | none =>
      obtain ⟨-, hd⟩ := Cursor.remaining_of_read_none hr
      rw [hd]
      rfl
    | some r =>
      have hpos := pos_of_read hr
      rw [Cursor.remaining_of_read hr, List.length_cons]
      show d.pos + d.remaining.length = _
      omega

theorem pos_unread_of_read {c d : Cursor} {r : Char} (h : c.read = (some r, d)) :
    (d.unread r).pos = c.pos := by
  show d.pos - 1 = c.pos
  rw [pos_of_read h, Nat.add_sub_cancel]

theorem cursor_take (l : Lexer) : l.take.2.cursor = l.cursor.read.2 := by
  unfold take
  split <;> rename_i hr <;> rw [hr]

/-- A rune that is consumed and given back leaves the cursor as a look does, and the token being
built as it was, but for where it starts if there is none. -/
theorem giveBack_of_take {r : Char} (h : l.take = (some r, m)) : ∃ c, l.cursor.read = (some r, c) ∧
    m.giveBack = { l with cursor := c.unread r, start := l.offset } := by
  unfold take at h
  split at h
  · cases h
  · rename_i c hr
    cases h
    exact ⟨c, hr, rfl⟩

/-- The next rune is consumed where a token is being built, or where one is started. -/
theorem Within.take (h : Within n l) : Within n l.take.2 := by
  have hplace := place_read l.cursor
  have hpos := Cursor.pos_le_read l.cursor
  have hstart := h.start
  unfold Lexer.take
  split
  · rename_i c hr
    rw [hr] at hplace hpos
    exact h.moves hplace hpos (Nat.le_trans hstart hpos)
  · rename_i r c hr
    have hread := pos_of_read hr
    rw [hr] at hplace hpos
    refine h.moves hplace hpos ?_
    dsimp only
    rw [List.length_cons]
    split
    · rename_i hempty
      rw [List.isEmpty_iff.mp hempty, List.length_nil]
      omega
    · omega

/-- A look is no move. -/
theorem Within.look {c : Cursor} {r : Char} (h : Within n l) (hr : l.cursor.read = (some r, c))
    {start : Nat} (hstart : start + l.taken.length ≤ l.cursor.pos) :
    Within n { l with cursor := c.unread r, start } := by
  have hpos := pos_unread_of_read hr
  refine h.moves ?_ (Nat.le_of_eq hpos.symm) (hpos ▸ hstart)
  rw [hpos, Cursor.remaining_unread_of_read hr]

theorem Reaches.within (h : Reaches l m) (hl : Within n l) : Within n m := by
  induction h with
  | start => exact hl
  | @read m before ih =>
    have hpos := Cursor.pos_le_read m.cursor
    exact ih.moves (place_read m.cursor) hpos (Nat.le_trans ih.start hpos)
  | look before hr ih => exact ih.look hr ih.start
  | take before ih => exact ih.take
  | @giveBack m n r before ht ih =>
    obtain ⟨c, hr, hback⟩ := giveBack_of_take ht
    have hstart := ih.start
    rw [hback]
    refine ih.look hr ?_
    unfold Lexer.offset
    split
    · rename_i hempty
      rw [List.isEmpty_iff.mp hempty]
      exact Nat.le_refl _
    · exact ih.start
  | emit kind before ih => exact ih.emit kind
  | fail problem before ih => exact ih.fail problem
  | expect state before ih => exact ⟨ih.place, ih.start, ih.queue, ih.error⟩
  | recount parens outer before ih => exact ⟨ih.place, ih.start, ih.queue, ih.error⟩

/-- Strokes go on from where a lexer is. -/
theorem Reaches.pos_le (h : Reaches l m) : l.cursor.pos ≤ m.cursor.pos := by
  induction h with
  | start => exact Nat.le_refl _
  | read before ih => exact Nat.le_trans ih (Cursor.pos_le_read _)
  | look before hr ih => exact Nat.le_trans ih (Nat.le_of_eq (pos_unread_of_read hr).symm)
  | @take m before ih =>
    rw [cursor_take]
    exact Nat.le_trans ih (Cursor.pos_le_read _)
  | giveBack before ht ih =>
    obtain ⟨c, hr, hback⟩ := giveBack_of_take ht
    rw [hback]
    exact Nat.le_trans ih (Nat.le_of_eq (pos_unread_of_read hr).symm)
  | _ => assumption

/-- Between two requests a lexer has noted nothing that is not before its place, and it has handed
out nothing else. -/
theorem within_after (source : List Char) (file : String) (n : Nat) :
    Within source.length ((ofRunes source file).after n) ∧
      ∀ t ∈ (ofRunes source file).handed n, t.Within ((ofRunes source file).after n).cursor.pos := by
  refine after_invariant (P := fun ts m => Within source.length m ∧ ∀ t ∈ ts, t.Within m.cursor.pos)
    ?_ ?_ ⟨.ofRunes source file, nofun⟩ n
  · rintro ts m state ⟨within, handed⟩ - -
    have reaches := reaches_step m
    exact ⟨reaches.within within, fun t ht => (handed t ht).mono reaches.pos_le⟩
  · rintro ts m t queue ⟨within, handed⟩ hq
    refine ⟨⟨within.place, within.start, fun u hu => within.queue u ?_, within.error⟩, ?_⟩
    · rw [hq]
      exact List.mem_cons_of_mem t hu
    · intro u hu
      rcases List.mem_append.mp hu with hu | hu
      · exact handed u hu
      · rw [List.mem_singleton.mp hu]
        exact within.queue t (by rw [hq]; exact List.mem_cons_self)

/-- All tokens are those that enough requests hand out, and the lexer behind them is the one after
those. -/
theorem exists_tokens_eq_handed (l : Lexer) : ∃ n, l.tokens = (l.handed n, l.after n) := by
  refine ⟨l.tokens.1.length + 1, ?_⟩
  have hnone : l.answer l.tokens.1.length = none := by
    rw [answer_eq_getElem?]
    exact List.getElem?_eq_none (Nat.le_refl _)
  have hnext := next_after l.tokens.1.length l
  rw [hnone] at hnext
  have hleft := tokens_of_next_none hnext
  rw [tokens_after] at hleft
  rw [handed_eq_take, List.take_of_length_le (Nat.le_succ _), ← (Prod.mk.inj hleft).2]

/-! ## What a narrow lexer does of what a lexer does -/

namespace Narrow

variable {build : Build}

theorem narrow_after (h : source.length < UInt32.size) (file : String) (n : Nat) :
    narrow ((ofRunes source file).after n) = (ofRunes source file).after n :=
  have within := (within_after source file n).1
  within.narrow_eq (Nat.lt_of_le_of_lt within.pos_le h)

theorem within_tokens (source : List Char) (file : String) :
    ∀ t ∈ (ofRunes source file).tokens.1, t.Within source.length := by
  obtain ⟨n, htokens⟩ := exists_tokens_eq_handed (ofRunes source file)
  obtain ⟨within, handed⟩ := within_after source file n
  rw [htokens]
  exact fun t ht => (handed t ht).mono within.pos_le

/-- Where a source has an offset for each of its runes, any number of requests is answered by either
build as the lexer answers them, and it comes to the same lexer. -/
theorem run_requests (h : source.length < UInt32.size) (build : Build) (file : String) (n : Nat) :
    ∃ w : Watched, (requests n).run (.ofRunes build source file)
        = some ((List.range n).map fun k => (ofRunes source file).answer k, w) ∧
      w.lexer = (ofRunes source file).after n ∧ ∀ m ∈ w.past, m.Sound source := by
  have hrequests := does_requests source (ready_ofRunes source file) n
  obtain ⟨stop, past, hrun, stands⟩ := hrequests.run_ofRunes build fun _ => h
  have hanswers : ∀ k ∈ List.range n,
      ((ofRunes source file).answer k).map (Token.relocate .narrow)
        = (ofRunes source file).answer k := by
    intro k _
    cases ht : (ofRunes source file).answer k with
    | none => rfl
    | some t =>
      rw [answer_eq_getElem?] at ht
      have within := within_tokens source file t (List.mem_of_getElem? ht)
      exact congrArg some (within.relocate_narrow h)
  rw [List.map_congr_left hanswers] at hrun
  exact ⟨_, hrun, narrow_after h file n, stands.past h⟩

/-- So it is with a number of steps. -/
theorem run_steps (h : source.length < UInt32.size) (build : Build) (file : String) (n : Nat) :
    ∃ w : Watched, (steps n).run (.ofRunes build source file) = some ((), w) ∧
      w.lexer = Lexer.step^[n] (ofRunes source file) := by
  have hsteps := does_steps source (ready_ofRunes source file) n
  obtain ⟨stop, past, hrun, -⟩ := hsteps.run_ofRunes build fun _ => h
  have within : Within source.length (Lexer.step^[n] (ofRunes source file)) :=
    iterate_invariant (P := Within source.length) (fun l => (reaches_step l).within)
      (.ofRunes source file) n
  exact ⟨_, hrun, within.narrow_eq (Nat.lt_of_le_of_lt within.pos_le h)⟩

/-- So it is with all tokens. -/
theorem run_tokens (h : source.length < UInt32.size) (build : Build) (file : String) :
    ∃ w : Watched, tokens.run (.ofRunes build source file)
        = some ((ofRunes source file).tokens.1, w) ∧ w.lexer = (ofRunes source file).tokens.2 := by
  have htokens := does_tokens source (ready_ofRunes source file)
  obtain ⟨stop, past, hrun, -⟩ := htokens.run_ofRunes build fun _ => h
  obtain ⟨n, hlast⟩ := exists_tokens_eq_handed (ofRunes source file)
  rw [map_relocate_narrow (within_tokens source file) h] at hrun
  refine ⟨_, hrun, ?_⟩
  show narrow (ofRunes source file).tokens.2 = _
  rw [hlast]
  exact narrow_after h file n

/-- So it is with what a source is taken apart into. -/
theorem tokenize_of_lt (h : source.length < UInt32.size) (build : Build) (file : String) :
    tokenize build source file = some (ExprYard.tokenize source file) := by
  obtain ⟨n, hlast⟩ := exists_tokens_eq_handed (ofRunes source file)
  obtain ⟨within, handed⟩ := within_after source file n
  rw [tokenize_eq build (fun _ => h) file]
  unfold ExprYard.tokenize
  rw [hlast]
  dsimp only
  cases herror : ((ofRunes source file).after n).error with
  | some d =>
    have hle := Nat.le_trans (within.error d herror) within.pos_le
    exact congrArg (some ∘ Except.error) (Diagnostic.relocate_narrow_of_le hle h)
  | none =>
    refine congrArg (some ∘ Except.ok) (map_relocate_narrow (n := source.length) ?_ h)
    intro t ht
    rcases List.mem_append.mp ht with ht | ht
    · exact (handed t ht).mono within.pos_le
    · rw [List.mem_singleton.mp ht]
      exact ⟨within.pos_le, within.pos_le⟩

/-- So it is with what a parser comes to that is fed with its tokens. -/
theorem parseLexer_of_lt (h : source.length < UInt32.size) (build : Build) (file : String) :
    parseLexer build source file = some (ExprYard.parseLexer (ofRunes source file)).1 := by
  rw [parseLexer_eq build (fun _ => h) file, map_relocate_narrow (within_tokens source file) h]
  unfold ExprYard.parseLexer parseTokens
  rw [← drain_fst]

end Narrow

end Lexer

/-- Before a source of fewer runes than there are offsets no lexer oversteps a bound, however often
it is asked for a token and whichever the build: it does not come to nothing. It hands out what the
lexer hands out, and it comes to the same lexer. And after each of its strokes, of every rune that it
handed out, consumed, took back or gave back, it is sound: the runes that it has pulled are those
before its place and the one in its slot, that is the rune of the source at its place, and the token
being built is the stretch of the source from where it starts to where it stops. The one stroke that
leaves the token stopping elsewhere, one rune further on, is the one that takes back its last rune
for it to be given back. -/
theorem strokes_within_bounds {source : List Char} (h : source.length < UInt32.size)
    (build : Lexer.Narrow.Build) (file : String) (n : Nat) :
    ∃ w : Lexer.Narrow.Watched,
      (Lexer.Narrow.requests n).run (.ofRunes build source file)
        = some ((List.range n).map fun k => (Lexer.ofRunes source file).answer k, w) ∧
      w.lexer = (Lexer.ofRunes source file).after n ∧ ∀ m ∈ w.past, m.Sound source :=
  Lexer.Narrow.run_requests h build file n

/-- In a call a name, a number with a fraction and an exponent, and parentheses are read. -/
theorem strokes_within_bounds_call :
    "f (1.5e3)".toList.length < UInt32.size ∧
      ∃ w : Lexer.Narrow.Watched,
        (Lexer.Narrow.requests 5).run (.ofRunes .checked "f (1.5e3)".toList "shell")
          = some ((List.range 5).map fun k =>
              (Lexer.ofRunes "f (1.5e3)".toList "shell").answer k, w) ∧
        w.lexer = (Lexer.ofRunes "f (1.5e3)".toList "shell").after 5 ∧
        ∀ m ∈ w.past, m.Sound "f (1.5e3)".toList :=
  have h : "f (1.5e3)".toList.length < UInt32.size := by decide
  ⟨h, strokes_within_bounds h .checked "shell" 5⟩

/-- After the unread of the `;` behind `1` that is part of giving it back, the token being built is
`1` and still stops behind the `;`. -/
theorem unread_before_stop :
    ∃ served w, (Lexer.Narrow.requests 1).run (.ofRunes .checked ['1', ';'] "shell")
        = some (served, w) ∧
      ∃ m ∈ w.past, m.stroke = .unreadTaken ∧ m.lexer.lexeme = ['1'] ∧ m.lexer.start = 0 ∧
        m.stop = 2 ∧ m.lexer.position.offset = 1 ∧
        m.lexer.lexeme ≠ (['1', ';'].drop m.lexer.start).take (m.stop - m.lexer.start) := by
  have hfound : ((Lexer.Narrow.requests 1).run (.ofRunes .checked ['1', ';'] "shell")).any
      (fun served => served.2.past.any fun m =>
        m.stroke = .unreadTaken ∧ m.lexer.lexeme = ['1'] ∧ m.lexer.start = 0 ∧ m.stop = 2 ∧
          m.lexer.position.offset = 1) = true := by
    decide +kernel
  obtain ⟨⟨served, w⟩, hrun, hpast⟩ := (Option.any_eq_true _ _).mp hfound
  obtain ⟨m, hm, hmoment⟩ := List.any_eq_true.mp hpast
  obtain ⟨hstroke, hlexeme, hstart, hstop, hpos⟩ := of_decide_eq_true hmoment
  refine ⟨served, w, hrun, m, hm, hstroke, hlexeme, hstart, hstop, hpos, ?_⟩
  rw [hlexeme, hstart, hstop]
  decide

end ExprYard
