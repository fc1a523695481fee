import ExprYard.Proofs.Grammar.Cutting
import ExprYard.Proofs.Lexer.Stretches

/-!
# A text between parentheses

A text that is an expression is read between parentheses as it is read by itself. By itself it is at
the head of a statement, and nothing is open around it; between parentheses it is an operand, and
there are counts below those of its own. `Stance.inside` takes a stance from the one to the other,
and as long as neither the word `let` nor a semicolon is read, the automaton allows the same words
(`Stance.Reads.inside`).

The parenthesis that closes the text has no part in the reading of it, for words do not mind one
behind them. And as the parentheses of the text match each other, it closes nothing that the text
has opened (`reading_enclosed`).
-/

namespace ExprYard

/-! ## More parentheses around -/

/-- The counts of open parentheses with `p` more in the outermost count, and `os` outside of it. -/
def deepen (p : Nat) (os : List Nat) : Nat → List Nat → Nat × List Nat
  | n, [] => (p + n, os)
  | n, m :: ns => (n, (deepen p os m ns).1 :: (deepen p os m ns).2)

namespace Stance

/-- The stance in which a lexer is between parentheses, where by itself it would be in `s`. -/
def inside (p : Nat) (os : List Nat) (s : Stance) : Stance :=
  ⟨if s.mode = .statementHead then .operand else s.mode,
    (deepen p os s.parens s.outer).1, (deepen p os s.parens s.outer).2⟩

variable {s next : Stance} {kind : Kind} {p : Nat} {os : List Nat}

theorem deepen_succ (p : Nat) (os : List Nat) (n : Nat) (ns : List Nat) :
    deepen p os (n + 1) ns = ((deepen p os n ns).1 + 1, (deepen p os n ns).2) := by
  cases ns <;> rfl

theorem awaits_inside (h : s.awaits = true) : (s.inside p os).awaits = true := by
  rcases (Bool.or_eq_true ..).mp h with hm | hm <;> simp [awaits, inside, of_decide_eq_true hm]

/-- Where the text may end by itself, an operand begins between parentheses, or one has ended. -/
theorem mode_inside (h : s.mode.state.mayEnd = true) :
    (s.inside p os).mode = .operand ∨ (s.inside p os).mode = .afterOperand := by
  unfold inside
  cases hs : s.mode with
  | statementHead | operand => exact .inl rfl
  | afterOperand => exact .inr rfl
  | _ =>
    rw [hs] at h
    cases h

/-- A parenthesis that closes one of the text's own does so between others too. -/
theorem close_inside (h : s.close = some next) :
    (s.inside p os).close = some (next.inside p os) := by
  obtain ⟨mode, parens, outer⟩ := s
  cases parens with
  | succ n =>
    cases h
    simp only [inside, close, deepen_succ]
    rfl
  | zero =>
    cases outer with
    | nil => cases h
    | cons m ns =>
      cases h
      rfl

theorem begun_inside (h : s.begun kind = some next) :
    (s.inside p os).begun kind = some (next.inside p os) := by
  cases kind with
  | openParen =>
    cases h
    simp only [begun, inside, deepen_succ]
    rfl
  | closeParen => exact close_inside h
  | identifier | integer | float | string | char =>
    cases h
    rfl
  | operator op =>
    cases op with
    | not =>
      cases h
      rfl
    | _ => cases h
  | _ => cases h

/-- Between parentheses nothing is at the level of a statement. -/
theorem isLevel_inside (h : (⟨.operand, p, os⟩ : Stance).isLevel = false) :
    (s.inside p os).isLevel = false := by
  obtain ⟨mode, parens, outer⟩ := s
  cases outer with
  | nil =>
    apply Bool.eq_false_iff.mpr
    intro hl
    apply Bool.eq_false_iff.mp h
    simp only [isLevel, inside, deepen, Bool.and_eq_true, decide_eq_true_eq] at hl ⊢
    exact ⟨(Nat.add_eq_zero_iff.mp hl.1).1, hl.2⟩
  | cons m ns => simp [isLevel, inside, deepen]

theorem continued_inside (hlevel : (⟨.operand, p, os⟩ : Stance).isLevel = false)
    (h : s.continued kind = some next) (hk : kind ≠ .keyword .semicolon) :
    (s.inside p os).continued kind = some (next.inside p os) := by
  cases kind with
  | closeParen => exact close_inside h
  | keyword word =>
    cases word with
    | comma =>
      simp only [continued] at h ⊢
      split at h
      · cases h
      · cases h
        rw [isLevel_inside hlevel]
        rfl
    | semicolon => exact (hk rfl).elim
    | _ => cases h
  | operator op =>
    simp only [continued] at h ⊢
    split at h
    · rename_i hop
      cases h
      rw [if_pos hop]
      rfl
    · cases h
  | _ => cases h

/-- The automaton allows between parentheses what it allows of an expression by itself. -/
theorem after_inside (hlevel : (⟨.operand, p, os⟩ : Stance).isLevel = false)
    (hm : s.mode.state.mayEnd = true) (h : s.after kind = some next)
    (hlet : kind ≠ .keyword .letWord) (hk : kind ≠ .keyword .semicolon) :
    (s.inside p os).after kind = some (next.inside p os) := by
  rcases awaits_or_afterOperand hm with hs | hs
  · rw [after_of_awaits hs hlet] at h
    rw [after_of_awaits (awaits_inside hs) hlet]
    exact begun_inside h
  · have hmode : (s.inside p os).mode = .afterOperand := by simp [inside, hs]
    simp only [after, hs] at h
    simp only [after, hmode]
    exact continued_inside hlevel h hk

end Stance

/-! ## Counting -/

/-- What a word of an expression does to the counts of parentheses. Behind it the text may end. -/
inductive Stance.Moves (s : Stance) : Kind → Stance → Prop where
  | opens : Moves s .openParen ⟨.operand, s.parens + 1, s.outer⟩
  | closes {next : Stance} (h : s.close = some next) : Moves s .closeParen next
  | stays {kind : Kind} (mode : Mode) (hopen : kind ≠ .openParen) (hclose : kind ≠ .closeParen)
      (may : mode.state.mayEnd = true) : Moves s kind (s.goto mode)

/-- How many parentheses are open: those that are counted, and one for each call. -/
def nesting : Nat → List Nat → Nat
  | n, [] => n
  | n, m :: ns => n + 1 + nesting m ns

theorem nesting_succ (n : Nat) (ns : List Nat) : nesting (n + 1) ns = nesting n ns + 1 := by
  cases ns with
  | nil => rfl
  | cons m ns =>
    unfold nesting
    omega

theorem eq_of_nesting_eq_zero {n : Nat} {ns : List Nat} (h : nesting n ns = 0) :
    n = 0 ∧ ns = [] := by
  cases ns with
  | nil => exact ⟨h, rfl⟩
  | cons m ns =>
    unfold nesting at h
    omega

/-- Neither the word `let` nor a semicolon is among the tokens. -/
def Plain (ts : List Token) : Prop :=
  ∀ t ∈ ts, t.kind ≠ .keyword .letWord ∧ t.kind ≠ .keyword .semicolon

theorem plain_append {ts us : List Token} : Plain (ts ++ us) ↔ Plain ts ∧ Plain us :=
  List.forall_mem_append

namespace Stance

variable {s next last : Stance} {kind : Kind} {a : Spot} {ws : List Word}

theorem moves_begun (h : s.begun kind = some next) : s.Moves kind next := by
  cases kind with
  | openParen =>
    cases h
    exact .opens
  | closeParen => exact .closes h
  | identifier | integer | float | string | char =>
    cases h
    exact .stays .afterOperand nofun nofun rfl
  | operator op =>
    cases op with
    | not =>
      cases h
      exact .stays .operand nofun nofun rfl
    | _ => cases h
  | _ => cases h

theorem moves_continued (h : s.continued kind = some next) : s.Moves kind next := by
  cases kind with
  | closeParen => exact .closes h
  | keyword word =>
    cases word with
    | comma =>
      simp only [continued] at h
      split at h <;> cases h
      exact .stays .operand (by decide) (by decide) rfl
    | semicolon =>
      simp only [continued] at h
      split at h <;> cases h
      exact .stays .statementHead (by decide) (by decide) rfl
    | _ => cases h
  | operator op =>
    simp only [continued] at h
    split at h <;> cases h
    exact .stays .operand (by simp) (by simp) rfl
  | _ => cases h

theorem moves_after (hm : s.mode.state.mayEnd = true) (h : s.after kind = some next)
    (hlet : kind ≠ .keyword .letWord) : s.Moves kind next := by
  rcases awaits_or_afterOperand hm with hs | hs
  · rw [after_of_awaits hs hlet] at h
    exact moves_begun h
  · simp only [after, hs] at h
    exact moves_continued h

/-- A word counts as its token does. -/
theorem Moves.level (h : s.Moves kind next) {t : Token} (hk : t.kind = kind) :
    t.level (nesting s.parens s.outer) = nesting next.parens next.outer := by
  cases h with
  | opens => exact (Token.level_open hk).trans (nesting_succ _ _).symm
  | closes h =>
    have hclose : nesting s.parens s.outer = nesting next.parens next.outer + 1 := by
      obtain ⟨mode, parens, outer⟩ := s
      cases parens with
      | succ n =>
        cases h
        exact nesting_succ _ _
      | zero =>
        cases outer with
        | nil => cases h
        | cons m ns =>
          cases h
          exact Nat.add_comm 1 _
    rw [hclose]
    exact Token.level_close hk
  | stays mode hopen hclose may => exact Token.level_other (hk ▸ hopen) (hk ▸ hclose)

theorem Moves.mayEnd (h : s.Moves kind next) : next.mode.state.mayEnd = true := by
  cases h with
  | opens => rfl
  | closes h =>
    rw [mode_of_close h]
    rfl
  | stays mode hopen hclose may => exact may

/-! ## Words of an expression -/

theorem Reads.mayEnd (h : s.Reads a ws next) (hm : s.mode.state.mayEnd = true)
    (plain : Plain (a.utter ws)) : next.mode.state.mayEnd = true := by
  cases h with
  | word _ _ after _ => exact (moves_after hm after (plain _ List.mem_cons_self).1).mayEnd
  | typed mode _ _ =>
    rw [mode] at hm
    cases hm
  | call => rfl

/-- Parentheses that match each other are counted as they match. -/
theorem Reads.matched (h : s.Reads a ws next) (hm : s.mode.state.mayEnd = true)
    (plain : Plain (a.utter ws)) {us : List Token}
    (matched : Matched (nesting s.parens s.outer) (a.utter ws ++ us)) :
    Matched (nesting next.parens next.outer) us := by
  cases h with
  | @word kind w _ _ _ after _ =>
    have level := (moves_after hm after (plain _ List.mem_cons_self).1).level
      (show (a.token kind w).kind = kind from rfl)
    rw [← level]
    exact matched.2
  | typed mode _ _ =>
    rw [mode] at hm
    cases hm
  | @call v w _ name _ opening =>
    -- The name counts nothing, and the parenthesis begins a count of its own.
    have hname : (a.token .function v).level (nesting s.parens s.outer)
        = nesting s.parens s.outer := Token.level_other nofun nofun
    have hopening : ((a.past v).skip.token .openParen w).level (nesting s.parens s.outer)
        = nesting 0 (s.parens :: s.outer) := (Token.level_open rfl).trans (Nat.add_comm _ 1)
    obtain ⟨-, -, hrest⟩ := matched
    rw [hname, hopening] at hrest
    exact hrest

/-- What is read of an expression is read between parentheses too. -/
theorem Reads.inside {p : Nat} {os : List Nat} (h : s.Reads a ws next)
    (hm : s.mode.state.mayEnd = true) (plain : Plain (a.utter ws))
    (hlevel : (⟨.operand, p, os⟩ : Stance).isLevel = false) :
    (s.inside p os).Reads a ws (next.inside p os) := by
  have hmode : s.mode ≠ .letName := by
    intro hs
    rw [hs] at hm
    cases hm
  have hname : (s.inside p os).mode ≠ .letName := by
    rcases mode_inside hm with hs | hs <;> rw [hs] <;> nofun
  have hhead : (s.inside p os).mode ≠ .statementHead := by
    rcases mode_inside hm with hs | hs <;> rw [hs] <;> nofun
  cases h with
  | word lexeme fits after untyped =>
    obtain ⟨hlet, hsemicolon⟩ := plain _ List.mem_cons_self
    apply Reads.word
    · exact lexeme.congr (iff_of_false hmode hname)
    · exact ⟨fits.unlettered, fun hs => (hhead hs).elim⟩
    · exact after_inside hlevel hm after hlet hsemicolon
    · exact fun hs => (hname hs).elim
  | typed mode _ _ => exact (hmode mode).elim
  | call awaits name fits opening =>
    exact .call (awaits_inside awaits) name ⟨nofun, fun hs => (hhead hs).elim⟩ opening

section

variable {p : Nat} {os : List Nat}

/-- An expression closes nothing that it has not opened, so between parentheses it is read as it is
by itself. -/
theorem Scans.inside (h : s.Scans a ws last) (hm : s.mode.state.mayEnd = true)
    (plain : Plain (a.utter ws)) (hlevel : (⟨.operand, p, os⟩ : Stance).isLevel = false) :
    (s.inside p os).Scans a ws (last.inside p os) := by
  induction h with
  | nil s a => exact .nil (s.inside p os) a
  | cons reads scans ih =>
    rw [Spot.utter_append] at plain
    obtain ⟨hvs, hws⟩ := plain_append.mp plain
    exact .cons (reads.inside hm hvs hlevel) (ih (reads.mayEnd hm hvs) hws)

/-- Where the parentheses of an expression match, none of them is open behind it. -/
theorem Scans.matched (h : s.Scans a ws last) (hm : s.mode.state.mayEnd = true)
    (plain : Plain (a.utter ws)) (matched : Matched (nesting s.parens s.outer) (a.utter ws)) :
    nesting last.parens last.outer = 0 := by
  induction h with
  | nil s a => exact matched
  | cons reads scans ih =>
    rw [Spot.utter_append] at plain matched
    obtain ⟨hvs, hws⟩ := plain_append.mp plain
    exact ih (reads.mayEnd hm hvs) hws (reads.matched hm hvs matched)

end

theorem isLevel_of_close (h : s.close = some next) : s.isLevel = false := by
  obtain ⟨mode, parens, outer⟩ := s
  cases parens with
  | succ n => rfl
  | zero =>
    cases outer with
    | nil => cases h
    | cons m ns => rfl

end Stance

/-! ## The parenthesis behind the text -/

/-- Words do not mind a closing parenthesis behind the text that they stand in. -/
theorem behind_closing (x : List Char) : Behind x (x ++ [')']) where
  next := by
    intro r hr
    cases x with
    | nil =>
      cases hr
      exact .inr (.inr rfl)
    | cons c x => exact .inl hr
  ahead := by
    intro r hr
    rw [List.dropWhile_append]
    cases hx : x.dropWhile Rune.isBlank with
    | cons c y => exact Iff.rfl
    | nil =>
      refine iff_of_false ?_ nofun
      intro hhead
      cases hhead
      exact hr rfl

namespace Spot

/-- No blank stands beyond those of the text when a parenthesis is put behind it. -/
theorem skip_closing (a : Spot) : (a.more [')']).skip = a.skip.more [')'] := by
  by_cases h : a.skip.rest = []
  · have hfinish := a.leads_skip.finish.1
    rw [h] at hfinish
    rw [skip_more_of_blank h, ← hfinish]
    unfold more
    rw [h]
    rfl
  · exact skip_more h

/-- The words of a text stand there too with a parenthesis behind the text. -/
theorem twins_closing {a : Spot} {ws : List Word} (h : a.Twins a ws) :
    a.Twins (a.more [')']) ws ∧ (a.more [')']).utter ws = a.utter ws ∧
      (a.more [')']).beyond ws = (a.beyond ws).more [')'] := by
  induction ws generalizing a with
  | nil => exact ⟨trivial, rfl, rfl⟩
  | cons word ws ih =>
    obtain ⟨kind, w⟩ := word
    obtain ⟨stands, -, twins⟩ := h
    obtain ⟨htwins, hutter, hbeyond⟩ := ih twins
    have hskip : ((a.more [')']).past w).skip = (a.past w).skip.more [')'] := by
      rw [past_more stands, skip_closing]
    rw [← hskip] at htwins hutter hbeyond
    refine ⟨⟨?_, ?_, htwins⟩, ?_, hbeyond⟩
    · exact stands_of_rest ((congrArg (· ++ [')']) stands).trans (List.append_assoc ..))
    · rw [past_more stands]
      exact behind_closing _
    · exact congrArg (a.token kind w :: ·) hutter

end Spot

/-- Where nothing but a parenthesis is left, it closes what it can. -/
theorem reading_closing {s next : Stance} {b : Spot} (hs : s.mode = .operand ∨ s.mode = .afterOperand)
    (hb : b.skip.rest = [')']) (close : s.close = some next) :
    reading s b = ([b.skip.token .closeParen [')']], none) := by
  have after : s.after .closeParen = some next := by
    rw [← close]
    unfold Stance.after
    rcases hs with hs | hs <;> rw [hs] <;> rfl
  have lexeme : b.skip.Lexeme (s.mode = .letName) .closeParen [')'] :=
    .of_ahead (Spot.ahead_of_rest hb) rfl fun _ => trivial
  have reads : s.Reads b.skip [(.closeParen, [')'])] next := by
    refine .word lexeme ⟨nofun, nofun⟩ after ?_
    intro hm
    rcases hs with hs | hs <;> rw [hs] at hm <;> cases hm
  obtain ⟨c, hphrase, hc⟩ := reads.phrase
  have hend : phrase next c = .ended := by
    refine phrase_eq_ended.mpr ⟨?_, ?_⟩
    · rw [Stance.mode_of_close close]
      rfl
    · have hpast : (b.skip.past [')']).rest = [] := Spot.past_of_rest hb
      rw [hc]
      show (b.skip.past [')']).skip.rest = []
      rw [Spot.skip, hpast]
      rfl
  rw [reading_of_read hphrase, reading_of_ended hend]
  rfl

/-- Between parentheses that are open, a text whose own parentheses match is read as by itself, and
what stands behind it closes the innermost of them. -/
theorem reading_enclosed {a : Spot} {p : Nat} {os : List Nat} {next : Stance}
    (clean : (reading .start a).2 = none) (plain : Plain (reading .start a).1)
    (matched : Matched 0 (reading .start a).1)
    (close : (⟨.operand, p, os⟩ : Stance).close = some next) :
    ∃ t : Token, t.kind = .closeParen ∧
      reading ⟨.operand, p, os⟩ (a.more [')']) = ((reading .start a).1 ++ [t], none) := by
  obtain ⟨ws, last, scans, may, hend⟩ := exists_scans .start a clean
  have hread := reading_of_scans scans a rfl
  rw [reading_of_ended (phrase_eq_ended.mpr ⟨may, hend⟩), List.append_nil] at hread
  rw [hread] at plain matched
  obtain ⟨twins, hutter, hbeyond⟩ := Spot.twins_closing scans.stands
  have inner := (scans.inside rfl plain (Stance.isLevel_of_close close)).twin twins
  obtain ⟨hparens, houter⟩ := eq_of_nesting_eq_zero (scans.matched rfl plain matched)
  -- What is left of the text is the parenthesis.
  have hrest : ((a.skip.more [')']).beyond ws).skip.rest = [')'] := by
    rw [hbeyond, Spot.skip_closing, Spot.more, hend]
    rfl
  have hclose : (last.inside p os).close = some next := by
    rw [← close]
    unfold Stance.close Stance.inside
    rw [hparens, houter]
    rfl
  have hinner := reading_of_scans inner _ (Spot.skip_closing a)
  rw [reading_closing (Stance.mode_inside may) hrest hclose, hutter] at hinner
  rw [hread]
  exact ⟨Spot.token _ .closeParen [')'], rfl, hinner⟩

end ExprYard
