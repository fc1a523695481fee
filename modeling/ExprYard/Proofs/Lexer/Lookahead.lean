import ExprYard.Proofs.Lexer.Bounds
import ExprYard.Proofs.Lexer.Continuing

/-!
# How far ahead a lexer is

A lexer may finish one token more than it is asked for, and it may pull one rune more from its input
than it consumes. It never goes further (`lexer_keeps_close`): with a token handed out, at most one
more is finished and none is being built, and all that has been pulled behind the last finished
token are blanks and one rune.

The invariant is `Serving`. Tokens tile what is spent, those that were handed out and those that
were not; a state that follows a finished token begins with none being built (`Turn.rests`), so what
has been spent behind the tokens are blanks; and no rune of the input gets lost between the input
and the cursor's slot (`Reaches.supply`), so what has been pulled is what is spent and what is in
the slot. It holds as long as the lexer has met no problem. A problem is the end of it: the report is
finished alone, and nothing else follows.

The place of a lexer tells what it has come to as long as there is an offset for each of the runes
that it has pulled. Behind those offsets start anew (`position_starts_anew`).
-/

namespace ExprYard

/-! ## Runes of the input -/

namespace Cursor

variable {c d : Cursor} {r : Char}

/-- How many runes the input has, those that have been pulled and those that have not. -/
def supply (c : Cursor) : Nat :=
  c.pulled + c.feed.length

theorem supply_read (c : Cursor) : c.read.2.supply = c.supply := by
  obtain ⟨feed, slot, pulled, pos, ended⟩ := c
  cases slot with
  | some r => rfl
  | none =>
    cases feed with
    | nil => rfl
    | cons r feed =>
      show pulled + 1 + feed.length = pulled + (feed.length + 1)
      omega

/-- A rune that is taken back is still one that has been pulled. -/
theorem supply_unread_of_read (h : c.read = (some r, d)) : (d.unread r).supply = c.supply := by
  have hread := supply_read c
  rw [h] at hread
  exact hread

/-- The runes of an input are what it has given. -/
theorem getElem?_untilSilence {answers : List (Option Char)} {i : Nat}
    (h : (untilSilence answers)[i]? = some r) : answers[i]? = some (some r) := by
  induction answers generalizing i with
  | nil => cases h
  | cons answer answers ih =>
    cases answer with
    | none => cases h
    | some s =>
      cases i with
      | zero => exact congrArg some h
      | succ i => exact ih h

end Cursor

/-- What is between two offsets is blank. -/
theorem BlankBetween.getElem? {source : List Char} {i j k : Nat} (h : BlankBetween source i j)
    (hi : i ≤ k) (hk : k < j) : ∃ r, source[k]? = some r ∧ Rune.isBlank r = true := by
  have hlt : k < source.length := Nat.lt_of_lt_of_le hk h.within
  refine ⟨source[k], List.getElem?_eq_getElem hlt, h.blank _ ?_⟩
  apply List.mem_of_getElem? (i := k - i)
  rw [List.getElem?_take_of_lt (by omega), List.getElem?_drop, Nat.add_sub_cancel' hi]
  exact List.getElem?_eq_getElem hlt

theorem lastStop_append (offset : Nat) (ts us : List Token) :
    lastStop offset (ts ++ us) = lastStop (lastStop offset ts) us := by
  induction ts generalizing offset with
  | nil => rfl
  | cons t ts ih => exact ih t.span.stop

/-! ## Turns -/

theorem Turn.length_le {c c' : Control} {ts : List Token} (h : Turn c ts c') :
    ts.length ≤ 2 := by
  cases h <;> simp

/-- A turn that finishes a token leaves none that is being built. -/
theorem Turn.rests {c c' : Control} {ts : List Token} {l : Lexer} (h : Turn c ts c')
    (hts : ts ≠ []) (poised : Lexer.Poised c'.state l) : l.taken = [] := by
  cases h with
  | silent => exact (hts rfl).elim
  | elementType | closeInnerTuple => exact poised.1
  | _ => exact poised

namespace Lexer

variable {source : List Char} {file : String} {l m : Lexer} {t : Token} {ts queue : List Token}

/-- Strokes neither lose runes of the input nor make any. -/
theorem Reaches.supply (h : Reaches l m) : m.cursor.supply = l.cursor.supply := by
  induction h with
  | start => rfl
  | @read m before ih => exact (Cursor.supply_read m.cursor).trans ih
  | look before hr ih => exact (Cursor.supply_unread_of_read hr).trans ih
  | @take m before ih =>
    rw [cursor_take, Cursor.supply_read]
    exact ih
  | @giveBack m n r before ht ih =>
    have htake := cursor_take m
    rw [ht] at htake
    have hback : n.giveBack.cursor.supply = n.cursor.supply := by
      unfold Lexer.giveBack
      split <;> rfl
    rw [hback, show n.cursor = m.cursor.read.2 from htake, Cursor.supply_read]
    exact ih
  | emit kind before ih => exact ih
  | fail problem before ih => exact ih
  | expect state before ih => exact ih
  | recount parens outer before ih => exact ih

/-! ## What a lexer keeps that serves tokens -/

/-- A lexer before a source that has handed the tokens `ts` out and has met no problem. -/
structure Serving (source : List Char) (file : String) (ts : List Token) (m : Lexer) : Prop where
  covers : Covers (ofRunes source file) (ts ++ m.queue) m
  poised : ∀ state, m.state = some state → Poised state m
  queue : m.queue.length ≤ 2
  rests : m.queue ≠ [] → m.taken = []
  supply : m.cursor.supply = source.length

/-- A lexer that has met a problem and has no token but its report. -/
structure Stopped (m : Lexer) : Prop where
  state : m.state = none
  queue : ∀ t ∈ m.queue, t.kind = .error

theorem serving_ofRunes (source : List Char) (file : String) :
    Serving source file [] (ofRunes source file) where
  covers := quiet_refl.covers
  poised := (clean_ofRunes source file).poised
  queue := Nat.zero_le 2
  rests := by
    intro hn
    exact (hn rfl).elim
  supply := Nat.zero_add _

/-- A step goes on serving, or it is the last one. -/
theorem Serving.step {state : State} (h : Serving source file ts m) (hq : m.queue = [])
    (hs : m.state = some state) : Serving source file ts m.step ∨ Stopped m.step := by
  have did := did_step hs (h.poised state hs)
  have hsupply := (reaches_step m).supply.trans h.supply
  have hcovers := h.covers
  rw [hq, List.append_nil] at hcovers
  generalize m.step = m' at did hsupply
  cases did with
  | @went m' next us covers turn expects queue error poised =>
    rw [hq, List.nil_append] at queue
    refine .inl ⟨?_, ?_, ?_, ?_, hsupply⟩
    · rw [queue]
      exact hcovers.trans covers
    · intro state' hs'
      rw [expects] at hs'
      cases hs'
      exact poised
    · rw [queue]
      exact turn.length_le
    · intro hn
      rw [queue] at hn
      exact turn.rests hn poised
  | @halted n quiet =>
    have hqueue : n.halt.queue = [] := quiet.queue.trans hq
    refine .inl ⟨?_, ?_, ?_, ?_, hsupply⟩
    · rw [hqueue]
      exact (hcovers.trans quiet.covers).recast rfl rfl rfl rfl
    · intro state' hs'
      cases hs'
    · rw [hqueue]
      exact Nat.zero_le 2
    · intro hn
      exact (hn hqueue).elim
  | @failed n quiet problem =>
    refine .inr ⟨rfl, ?_⟩
    intro t ht
    rw [queue_fail, quiet.queue, hq, List.nil_append] at ht
    rw [List.mem_singleton.mp ht]
    rfl

/-- Handing out is serving. -/
theorem Serving.hand (h : Serving source file ts m) (hq : m.queue = t :: queue) :
    Serving source file (ts ++ [t]) { m with queue } where
  covers := by
    have hcovers := h.covers
    rw [hq, List.append_cons] at hcovers
    exact hcovers.recast rfl rfl rfl rfl
  poised := by
    intro state hs
    have hp := h.poised state hs
    cases state <;> exact hp
  queue := by
    have hlen := h.queue
    rw [hq, List.length_cons] at hlen
    exact Nat.le_of_succ_le hlen
  rests := by
    intro _
    apply h.rests
    rw [hq]
    exact List.cons_ne_nil t queue
  supply := h.supply

/-- A lexer that has stopped makes no step, and any other goes on as above. -/
theorem serving_or_stopped_step {state : State} (h : Serving source file ts m ∨ Stopped m)
    (hq : m.queue = []) (hs : m.state = some state) :
    Serving source file ts m.step ∨ Stopped m.step := by
  rcases h with serving | stopped
  · exact serving.step hq hs
  · rw [stopped.state] at hs
    cases hs

/-- Between two requests a lexer serves, or it has stopped. -/
theorem serving_after (source : List Char) (file : String) (n : Nat) :
    Serving source file ((ofRunes source file).handed n) ((ofRunes source file).after n) ∨
      Stopped ((ofRunes source file).after n) := by
  refine after_invariant (P := fun ts m => Serving source file ts m ∨ Stopped m)
    (fun _ _ _ => serving_or_stopped_step) ?_ (.inl (serving_ofRunes source file)) n
  rintro ts m t queue (serving | stopped) hq
  · exact .inl (serving.hand hq)
  · refine .inr ⟨stopped.state, ?_⟩
    intro u hu
    apply stopped.queue
    rw [hq]
    exact List.mem_cons_of_mem t hu

/-- So it is when it has settled to answer a request. -/
theorem serving_settle (source : List Char) (file : String) (n : Nat) :
    Serving source file ((ofRunes source file).handed n) ((ofRunes source file).after n).settle ∨
      Stopped ((ofRunes source file).after n).settle :=
  settle_invariant (P := fun m => Serving source file _ m ∨ Stopped m)
    (fun _ _ => serving_or_stopped_step) (serving_after source file n)

/-- With no token being built, what has been pulled is what is spent and what is in the slot. -/
theorem Serving.pulled (h : Serving source file ts m) (ht : m.taken = []) :
    m.cursor.pulled = m.cursor.pos + m.cursor.slot.toList.length := by
  -- The source is counted twice: as the runes pulled and the rest of the input, and as the runes
  -- spent, the slot and the rest of the input.
  obtain ⟨-, w, hw, ho, -⟩ := h.covers.tiles
  have hsupply := h.supply
  rw [unspent_of_nil ht] at hw
  rw [offset_of_nil ht] at ho
  unfold Cursor.supply at hsupply
  unfold Cursor.remaining at hw
  rw [hw, List.length_append, List.length_append] at hsupply
  omega

/-- How far a lexer is ahead of whoever has just been handed `t`, the input having given the
answers. -/
structure KeepsClose (answers : List (Option Char)) (t : Token) (m : Lexer) : Prop where
  /-- At most one more token is finished. -/
  queue : m.queue.length ≤ 1
  /-- No token is being built. -/
  lexeme : m.lexeme = []
  /-- At most one rune has been pulled that the lexer has yet to come to. -/
  pulled : m.cursor.pulled = m.position.offset ∨ m.cursor.pulled = m.position.offset + 1
  /-- What has been pulled behind the last finished token are blanks, except for the last rune. -/
  blank : ∀ i, lastStop 0 (t :: m.queue) ≤ i → i + 1 < m.cursor.pulled →
    ∃ r, answers[i]? = some (some r) ∧ Rune.isBlank r = true

theorem Serving.keepsClose {answers : List (Option Char)}
    (h : Serving (Cursor.untilSilence answers) file (ts ++ [t]) m) (hq : m.queue.length ≤ 1)
    (ht : m.taken = []) : KeepsClose answers t m where
  queue := hq
  lexeme := lexeme_of_nil ht
  pulled := by
    rw [h.pulled ht]
    show m.cursor.pos + _ = m.cursor.pos ∨ m.cursor.pos + _ = m.cursor.pos + 1
    cases m.cursor.slot with
    | none => exact .inl rfl
    | some r => exact .inr rfl
  blank := by
    intro i hi hpulled
    obtain ⟨-, w, hw, ho, tiles⟩ := h.covers.tiles
    have hblank := tiles.blank_after [] m.unspent rfl
    rw [List.nil_append, ← hw, Nat.zero_add, ← ho, offset_of_nil ht, List.append_assoc,
      lastStop_append] at hblank
    have hslot : m.cursor.slot.toList.length ≤ 1 := by
      cases m.cursor.slot with
      | none => exact Nat.zero_le 1
      | some r => exact Nat.le_refl 1
    rw [h.pulled ht] at hpulled
    obtain ⟨r, hr, hrune⟩ := hblank.getElem? hi (by omega)
    exact ⟨r, Cursor.getElem?_untilSilence hr, hrune⟩

/-- So it is after any request that was answered by a token and not by the report of a problem. -/
theorem keepsClose_after {answers : List (Option Char)} {n : Nat}
    (ht : (ofCursor (Cursor.ofAnswers answers) file).answer n = some t) (hk : t.kind ≠ .error) :
    KeepsClose answers t ((ofCursor (Cursor.ofAnswers answers) file).after (n + 1)) := by
  change (ofRunes (Cursor.untilSilence answers) file).answer n = some t at ht
  show KeepsClose answers t ((ofRunes (Cursor.untilSilence answers) file).after (n + 1))
  have hsettle := serving_settle (Cursor.untilSilence answers) file n
  have hnext := next_after n (ofRunes (Cursor.untilSilence answers) file)
  rw [ht] at hnext
  obtain ⟨hqueue, hsame⟩ := settle_of_next_some hnext
  rcases hsettle with serving | stopped
  · have hhand := serving.hand hqueue
    have hlen := serving.queue
    have hrest := serving.rests (by rw [hqueue]; exact List.cons_ne_nil _ _)
    rw [hqueue, List.length_cons] at hlen
    rw [← hsame] at hhand
    refine hhand.keepsClose (Nat.le_of_succ_le_succ hlen) ?_
    rw [hsame]
    exact hrest
  · have herror := stopped.queue t (by rw [hqueue]; exact List.mem_cons_self)
    exact (hk herror).elim

end Lexer

/-- Whatever an input gives, any number of requests is answered, by the checked build if there is an
offset for each of the runes that the input gives. Once a lexer has handed a token out that is no
report of a problem, and as long as it has pulled fewer runes than there are offsets, at most one
more token is finished and none is being built; the runes that it has pulled from the input are those
that it has come to and at most one more; and all runes that it has pulled behind its last finished
token are blanks, except for the last. An input that goes on is covered as well: what it would give
later makes no difference (`Lexer.alikeFor_append`). -/
theorem lexer_keeps_close (answers : List (Option Char)) (build : Lexer.Narrow.Build)
    (room : build = .checked → (Cursor.untilSilence answers).length < UInt32.size) (file : String)
    (n : Nat) :
    ∃ served w,
      (Lexer.Narrow.requests (n + 1)).run (.ofCursor build (Cursor.ofAnswers answers) file)
        = some (served, w) ∧
      (w.lexer.cursor.pulled < UInt32.size →
        ∀ t, served[n]? = some (some t) → t.kind ≠ .error → Lexer.KeepsClose answers t w.lexer) := by
  have hrequests := Lexer.Narrow.does_requests (Cursor.untilSilence answers)
    (Lexer.Narrow.ready_ofRunes (Cursor.untilSilence answers) file) (n + 1)
  obtain ⟨stop, past, hrun, stands⟩ := hrequests.run_ofRunes build room
  refine ⟨_, _, hrun, ?_⟩
  intro hpulled t ht hk
  -- No offset has been wrapped: all that the lexer has noted stands before its place.
  obtain ⟨within, handed⟩ := Lexer.within_after (Cursor.untilSilence answers) file (n + 1)
  have hpos : ((Lexer.ofRunes (Cursor.untilSilence answers) file).after (n + 1)).cursor.pos
      < UInt32.size :=
    Nat.lt_of_le_of_lt stands.firm.follows.pos_le_pulled hpulled
  have hanswer : ((Lexer.ofRunes (Cursor.untilSilence answers) file).answer n).map
      (Token.relocate .narrow) = some t := by
    rw [List.getElem?_map, List.getElem?_range (Nat.lt_succ_self n)] at ht
    exact Option.some.inj ht
  obtain ⟨u, hu, rfl⟩ := Option.map_eq_some_iff.mp hanswer
  have hmem : u ∈ (Lexer.ofRunes (Cursor.untilSilence answers) file).handed (n + 1) := by
    rw [Lexer.handed_succ, hu]
    exact List.mem_append_right _ List.mem_cons_self
  rw [(handed u hmem).relocate_narrow hpos] at hk ⊢
  show Lexer.KeepsClose answers u (Lexer.Narrow.narrow _)
  rw [within.narrow_eq hpos]
  exact Lexer.keepsClose_after hu hk

/-- Behind a name the lexer has skipped the blanks and seen the rune that follows them. -/
theorem keeps_close_behind_name :
    (Cursor.untilSilence [some 'x', some ' ', some ' ', some '+', none, some 'y']).length
        < UInt32.size ∧
      ∃ w : Lexer.Narrow.Watched,
        (Lexer.Narrow.requests 1).run (.ofCursor .checked (Cursor.ofAnswers
            [some 'x', some ' ', some ' ', some '+', none, some 'y']) "shell")
          = some ([some ⟨.identifier, "x", ⟨0, 1, "shell"⟩⟩], w) ∧
        Lexer.KeepsClose [some 'x', some ' ', some ' ', some '+', none, some 'y']
          ⟨.identifier, "x", ⟨0, 1, "shell"⟩⟩ w.lexer := by
  have room : (Cursor.untilSilence [some 'x', some ' ', some ' ', some '+', none, some 'y']).length
      < UInt32.size := by
    decide
  have hfound : ((Lexer.Narrow.requests 1).run (.ofCursor .checked (Cursor.ofAnswers
      [some 'x', some ' ', some ' ', some '+', none, some 'y']) "shell")).any (fun served =>
        served.1 = [some ⟨.identifier, "x", ⟨0, 1, "shell"⟩⟩] ∧ served.2.lexer.cursor.pulled = 4)
      = true := by
    decide +kernel
  obtain ⟨⟨found, v⟩, hv, hserved⟩ := (Option.any_eq_true _ _).mp hfound
  obtain ⟨rfl, hpulled⟩ : found = [some ⟨.identifier, "x", ⟨0, 1, "shell"⟩⟩] ∧
      v.lexer.cursor.pulled = 4 := of_decide_eq_true hserved
  obtain ⟨served, w, hrun, close⟩ := lexer_keeps_close
    [some 'x', some ' ', some ' ', some '+', none, some 'y'] .checked (fun _ => room) "shell" 0
  rw [hv] at hrun
  cases hrun
  exact ⟨room, v, hv, close (by rw [hpulled]; decide) _ rfl (by decide)⟩

/-- Offsets start anew: behind as many blanks as there are offsets, the lexer has come to the first
of them again when it has handed out the number and seen the blank behind it. -/
theorem position_starts_anew :
    ∃ w : Lexer.Narrow.Watched,
      (Lexer.Narrow.requests 1).run (.ofCursor .wrapping (Cursor.ofAnswers
          (List.replicate UInt32.size (some ' ') ++ [some '1', some ' '])) "shell")
        = some ([some ⟨.integer, "1", ⟨0, 1, "shell"⟩⟩], w) ∧
      ¬ (w.lexer.cursor.pulled = w.lexer.position.offset ∨
        w.lexer.cursor.pulled = w.lexer.position.offset + 1) := by
  -- Nothing may look into the blanks, so their number is made a variable.
  obtain ⟨n, hn⟩ : ∃ n, n = UInt32.size := ⟨UInt32.size, rfl⟩
  have huntil : Cursor.untilSilence (List.replicate n (some ' ') ++ [some '1', some ' '])
      = List.replicate n ' ' ++ ['1', ' '] := by
    clear hn
    induction n with
    | zero => rfl
    | succ n ih => exact congrArg (' ' :: ·) ih
  have hcursor : Cursor.ofAnswers (List.replicate n (some ' ') ++ [some '1', some ' '])
      = Cursor.ofRunes (List.replicate n ' ' ++ ['1', ' ']) := congrArg Cursor.ofRunes huntil
  have hplain : (Lexer.ofRunes ['1', ' '] "shell").tokens.1
      = [⟨.integer, "1", ⟨0, 1, "shell"⟩⟩] := by
    decide +kernel
  have hblank : Rune.isBlank ' ' = true := rfl
  have htokens := Lexer.tokens_indented hblank n ['1', ' '] "shell"
  rw [hplain] at htokens
  rw [← hn, hcursor]
  generalize List.replicate n ' ' ++ ['1', ' '] = source at htokens ⊢
  have hanswer : (Lexer.ofRunes source "shell").answer 0
      = some ⟨.integer, "1", ⟨0 + n, 1 + n, "shell"⟩⟩ := by
    rw [Lexer.answer_eq_getElem?, htokens]
    rfl
  have hserved : ((List.range 1).map fun k =>
      ((Lexer.ofRunes source "shell").answer k).map (Token.relocate .narrow))
      = [some ⟨.integer, "1", ⟨0, 1, "shell"⟩⟩] := by
    have hstart : Offset.wrap (0 + n) = 0 := by rw [hn]; decide
    have hstop : Offset.wrap (1 + n) = 1 := by rw [hn]; decide
    show [((Lexer.ofRunes source "shell").answer 0).map (Token.relocate .narrow)] = _
    rw [hanswer]
    show [some (⟨.integer, "1", ⟨Offset.wrap (0 + n), Offset.wrap (1 + n), "shell"⟩⟩ : Token)] = _
    rw [hstart, hstop]
  have hrequests := Lexer.Narrow.does_requests source
    (Lexer.Narrow.ready_ofRunes source "shell") 1
  obtain ⟨stop, past, hrun, stands⟩ := hrequests.run_ofRunes .wrapping nofun
  rw [hserved] at hrun
  -- All offsets up to the end of the number have been passed, and each of them is kept below `n`.
  have hmem : (⟨.integer, "1", ⟨0 + n, 1 + n, "shell"⟩⟩ : Token)
      ∈ (Lexer.ofRunes source "shell").handed 1 := by
    rw [Lexer.handed_succ, hanswer]
    exact List.mem_append_right _ List.mem_cons_self
  have hpos : 1 + n ≤ ((Lexer.ofRunes source "shell").after 1).cursor.pos :=
    ((Lexer.within_after source "shell" 1).2 _ hmem).2
  have hle := stands.firm.follows.pos_le_pulled
  have hwrap := Offset.wrap_lt ((Lexer.ofRunes source "shell").after 1).cursor.pos
  refine ⟨_, hrun, ?_⟩
  show ¬ (((Lexer.ofRunes source "shell").after 1).cursor.pulled
      = Offset.wrap ((Lexer.ofRunes source "shell").after 1).cursor.pos ∨
    ((Lexer.ofRunes source "shell").after 1).cursor.pulled
      = Offset.wrap ((Lexer.ofRunes source "shell").after 1).cursor.pos + 1)
  omega

end ExprYard
