import ExprYard.Proofs.Lexer.Bounds
import ExprYard.Proofs.Lexer.Fractions
import ExprYard.Proofs.Lexer.Lexemes

/-!
# Numbers with a point

A number that has a point is read as a float, or it ends the run (`Decimal`). Which of the two is
decided by the text behind the point, and in the second case the literal of the problem is the source
text that was consumed, from the first rune of the number on.

**The law** (`numbers_with_point`) says so of every number of every source: of the lexer after any
number of steps, when it is about to read a number. Two steps later it has read it.
`Lexer.step_number` takes it behind the point with the runes up to there held on to, and
`Lexer.scan_fraction` from there to the end of the number. The places are those that are kept if the
source has an offset for each of its runes.

The law asks for less than the name of a fraction does: `float_of_underscore` is a float whose
fraction has no digit.
-/

namespace ExprYard

namespace Lexer

variable {source : List Char} {file : String} {l : Lexer} {ts : List Token} {s : Stance} {a : Spot}
  {whole tail : List Char} {n : Nat}

/-- What becomes of a number at an offset of a source: its runes up to the point are `whole`, behind
the point is `tail`, and before it the tokens `before` have been finished. -/
inductive Decimal (source : List Char) (file : String) (before : List Token) (offset : Nat)
    (whole tail : List Char) : Prop where
  /-- A fraction and an exponent are behind the point. The number is read as a float, and the run
  goes on. -/
  | float {fraction exponent behind word : List Char} {after : List Token}
      (stands : IsFraction tail fraction exponent behind)
      (spelled : word = whole ++ '.' :: (fraction ++ 'e' :: exponent))
      (tokens : (ofRunes source file).tokens.1 = before ++
        ⟨.float, String.ofList word, offset, offset + word.length, file⟩ :: after) :
      Decimal source file before offset whole tail
  /-- They are not. The run ends with a problem at the number, and the literal of the problem is all
  that was consumed of the source from the number on. -/
  | malformed {literal : List Char}
      (absent : ∀ fraction exponent behind, ¬ IsFraction tail fraction exponent behind)
      (spelled : literal = whole ++ '.' :: brokenFraction tail)
      (taken : literal = (source.drop offset).take
        ((ofRunes source file).tokens.2.position.offset - offset))
      (tokens : (ofRunes source file).tokens.1 = before ++
        [report ⟨.malformedFloat (String.ofList literal), offset, file⟩])
      (error : (ofRunes source file).tokens.2.error
        = some ⟨.malformedFloat (String.ofList literal), offset, file⟩) :
      Decimal source file before offset whole tail

/-- A lexer that builds no token holds nothing of the source, at the spot that it has come to. -/
theorem Working.holds {state : State} (work : Working (ofRunes source file) ts state l)
    (ht : l.taken = []) (mode : Mode) :
    Holds l [] ⟨mode, l.parens, l.outer⟩ ⟨l.cursor.pos, source.drop l.cursor.pos, file⟩ [] l := by
  obtain ⟨hfile, w, hw, ho, -⟩ := work.covers.tiles
  rw [unspent_of_nil ht] at hw
  rw [offset_of_nil ht] at ho
  have hrest : source.drop l.cursor.pos = l.cursor.remaining := by rw [hw, ho, List.drop_left]
  rw [hrest, ← hfile]
  exact holds_remaining ht mode

/-- A step takes a lexer from a number to what is behind its point. -/
theorem step_number (h : Holds l [] s a [] l) (hs : l.state = some .number)
    (hrest : a.rest = whole ++ '.' :: tail) (hwhole : ∀ r ∈ whole, Rune.inNumber r = true) :
    Holds l [] s a (whole ++ ['.']) l.step ∧ l.step.state = some .fraction := by
  have hrun := Spot.run_of_point hrest hwhole
  have hheld : Holds l [] s a (a.run Rune.inNumber) (l.takeRun Rune.inNumber) := h.takeRun _
  have hahead : (l.takeRun Rune.inNumber).ahead = (a.past (a.run Rune.inNumber)).ahead :=
    h.ahead_takeRun _
  rw [hrun] at hheld hahead
  rw [Spot.ahead_of_rest (Spot.past_of_rest hrest)] at hahead
  have hstep : l.step = (l.takeRun Rune.inNumber).takeOne.goto .fraction := by
    rw [step_eq hs]
    show l.scanNumber = _
    unfold scanNumber
    dsimp only
    rw [if_pos hahead]
  rw [hstep]
  exact ⟨(hheld.takeOne hahead).goto .fraction, rfl⟩

/-- A number with a fraction and an exponent is read as a float, whatever comes behind it. -/
theorem exists_tokens_of_isFraction {fraction exponent behind : List Char}
    (h : Holds l [] s a [] l) (hs : l.state = some .number) (he : l.error = none)
    (hn : a.run Rune.inNumber ≠ []) (hrest : a.rest = whole ++ '.' :: tail)
    (hwhole : ∀ r ∈ whole, Rune.inNumber r = true)
    (hf : IsFraction tail fraction exponent behind) :
    ∃ k after, (step^[k] l).state = none ∧ (step^[k] l).queue
      = l.queue ++ a.token .float (whole ++ '.' :: (fraction ++ 'e' :: exponent)) :: after := by
  have follows := follows_number h hs hn
  rw [Stance.number_of_point hrest hwhole, Stance.fraction_of_isFraction hrest hf] at follows
  cases follows with
  | @read k _ _ _ rests queue error =>
    obtain ⟨j, hstate, hqueue, -⟩ := iterate_reading _ _ _ rests (error.trans he)
    rw [queue, List.append_assoc, List.singleton_append] at hqueue
    rw [← Function.iterate_add_apply] at hstate hqueue
    exact ⟨j + k, _, hstate, hqueue⟩

/-- A number without them is given up on in two steps, with all of it that was consumed held on
to. -/
theorem exists_fail_of_none (h : Holds l [] s a [] l) (hs : l.state = some .number)
    (hrest : a.rest = whole ++ '.' :: tail) (hwhole : ∀ r ∈ whole, Rune.inNumber r = true)
    (hnone : ∀ fraction exponent behind, ¬ IsFraction tail fraction exponent behind) :
    ∃ m, Holds l [] s a (whole ++ '.' :: brokenFraction tail) m ∧ step^[2] l
      = m.fail (.malformedFloat (String.ofList (whole ++ '.' :: brokenFraction tail))) := by
  obtain ⟨hpoint, hstate⟩ := step_number h hs hrest hwhole
  have hphrase : s.fraction a whole = _ := Stance.fraction_of_none hrest hnone
  rcases scan_fraction hpoint.self with ⟨m, w, -, -, hread, -⟩ | ⟨m, w, hm, hfail, hscan⟩
  · rw [hphrase] at hread
    cases hread
  · rw [hphrase] at hfail
    have hw : whole ++ '.' :: brokenFraction tail = w := by
      have hword := congrArg Diagnostic.problem (Phrase.failed.inj hfail)
      have hliteral := congrArg String.toList (Problem.malformedFloat.inj hword)
      rw [String.toList_ofList, String.toList_ofList] at hliteral
      exact hliteral
    rw [hw]
    refine ⟨m, { hm with queue := ?_, error := hm.error.trans hpoint.error }, ?_⟩
    · rw [hm.queue, hpoint.queue, List.append_nil]
    · show l.step.step = _
      rw [step_eq hstate, hscan]

/-- What becomes of a number that a lexer of a source has come to. -/
theorem decimal_of_working (work : Working (ofRunes source file) ts .number l)
    (hl : step^[n] (ofRunes source file) = l)
    (hrest : source.drop l.cursor.pos = whole ++ '.' :: tail)
    (hwhole : ∀ r ∈ whole, Rune.inNumber r = true) :
    Decimal source file l.queue l.cursor.pos whole tail := by
  obtain ⟨ht, r, hr, hd⟩ := work.poised
  have holds := work.holds ht .operand
  have hn : Spot.run ⟨l.cursor.pos, source.drop l.cursor.pos, file⟩ Rune.inNumber ≠ [] := by
    refine Spot.run_ne_nil (r := r) ?_ (Rune.inNumber_of_isDigit hd)
    rw [← hr, holds.remaining]
    rfl
  by_cases hf : ∃ fraction exponent behind, IsFraction tail fraction exponent behind
  · obtain ⟨fraction, exponent, behind, hf⟩ := hf
    obtain ⟨k, after, hstate, hqueue⟩ := exists_tokens_of_isFraction holds work.expects
      work.error hn hrest hwhole hf
    have hrun : step^[k] l = step^[k + n] (ofRunes source file) := by
      rw [Function.iterate_add_apply, hl]
    rw [hrun] at hstate hqueue
    rw [← (tokens_of_iterate hstate).1] at hqueue
    exact .float hf rfl hqueue
  · have hnone : ∀ fraction exponent behind, ¬ IsFraction tail fraction exponent behind := by
      intro fraction exponent behind h
      exact hf ⟨fraction, exponent, behind, h⟩
    obtain ⟨m, hm, hfail⟩ := exists_fail_of_none holds work.expects hrest hwhole hnone
    have hrun : step^[2] l = step^[2 + n] (ofRunes source file) := by
      rw [Function.iterate_add_apply, hl]
    rw [hrun] at hfail
    have hstate : (step^[2 + n] (ofRunes source file)).state = none := by
      rw [hfail]
      rfl
    -- The lexer that gives up is the one that is left behind all tokens, so its place is the end of
    -- what was consumed.
    obtain ⟨htokens, hleft⟩ := tokens_of_iterate hstate
    rw [hfail] at htokens hleft
    have hgaveUp := hm.gaveUp (.malformedFloat (String.ofList (whole ++ '.' :: brokenFraction tail)))
    refine .malformed hnone rfl ?_ ?_ ?_
    · have hpos : (ofRunes source file).tokens.2.position.offset
          = l.cursor.pos + (whole ++ '.' :: brokenFraction tail).length := by
        rw [hleft]
        exact hm.pos
      have hdrop : source.drop l.cursor.pos
          = (whole ++ '.' :: brokenFraction tail) ++ m.cursor.remaining := hm.rest
      rw [hpos, Nat.add_sub_cancel_left, hdrop, List.take_left]
    · exact htokens.trans hgaveUp.queue
    · rw [hleft]
      exact hgaveUp.error

end Lexer

/-- Every float is a number, a point, a fraction, an `e` and an exponent, and neither of these is
empty; the fraction has a digit, or it is made of underscores. -/
theorem of_mem_float {source : List Char} {file : String} {t : Token}
    (ht : t ∈ (Lexer.ofRunes source file).tokens.1) (hk : t.kind = .float) :
    ∃ whole fraction exponent,
      t.text.toList = whole ++ '.' :: (fraction ++ 'e' :: exponent) ∧ IsNumber whole ∧
        IsDigits fraction ∧ IsDigits exponent ∧
        ((∃ r ∈ fraction, Rune.isDigit r = true) ∨ ∀ r ∈ fraction, r = '_') := by
  have hne : t.kind ≠ .error := by
    rw [hk]
    decide
  obtain ⟨earlier, lexeme⟩ := (allLexemes_tokens source file).exists_isLexeme ht hne
  obtain ⟨whole, fraction, exponent, htext, hwhole, hfraction, hexponent⟩ := lexeme.spelt.of_kind hk
  exact ⟨whole, fraction, exponent, htext, hwhole, hfraction, hexponent,
    hfraction.digit_or_underscores⟩

/-- Before a source that has an offset for each of its runes, either build makes the steps and finds
the tokens that the lexer does. Every float of the source is a number, a point, a fraction, an `e`
and an exponent, and neither the fraction nor the exponent is empty; the fraction has a digit, or it
is made of underscores. And whenever a lexer comes to a number that has a point, it reads a float if
such a fraction and such an exponent are behind the point; if not, its run ends with a problem at the
number, with all that was consumed of the source from the number on for a literal. -/
theorem numbers_with_point {source : List Char} (h : source.length < UInt32.size)
    (build : Lexer.Narrow.Build) (file : String) :
    (∃ w : Lexer.Narrow.Watched, Lexer.Narrow.tokens.run (.ofRunes build source file)
        = some ((Lexer.ofRunes source file).tokens.1, w) ∧
      w.lexer = (Lexer.ofRunes source file).tokens.2) ∧
    (∀ n, ∃ w : Lexer.Narrow.Watched, (Lexer.Narrow.steps n).run (.ofRunes build source file)
        = some ((), w) ∧ w.lexer = Lexer.step^[n] (Lexer.ofRunes source file)) ∧
    (∀ t ∈ (Lexer.ofRunes source file).tokens.1, t.kind = .float →
      ∃ whole fraction exponent,
        t.text.toList = whole ++ '.' :: (fraction ++ 'e' :: exponent) ∧ IsNumber whole ∧
          IsDigits fraction ∧ IsDigits exponent ∧
          ((∃ r ∈ fraction, Rune.isDigit r = true) ∨ ∀ r ∈ fraction, r = '_')) ∧
    ∀ n whole tail, (Lexer.step^[n] (Lexer.ofRunes source file)).state = some .number →
      source.drop (Lexer.step^[n] (Lexer.ofRunes source file)).position.offset
        = whole ++ '.' :: tail →
      (∀ r ∈ whole, Rune.inNumber r = true) →
      Lexer.Decimal source file (Lexer.step^[n] (Lexer.ofRunes source file)).queue
        (Lexer.step^[n] (Lexer.ofRunes source file)).position.offset whole tail := by
  refine ⟨Lexer.Narrow.run_tokens h build file, Lexer.Narrow.run_steps h build file,
    fun t => of_mem_float, ?_⟩
  intro n whole tail hs hrest hwhole
  have course := Lexer.course_iterate source file n
  generalize hl : Lexer.step^[n] (Lexer.ofRunes source file) = l at hs hrest course
  cases course with
  | working work =>
    rw [work.expects] at hs
    cases hs
    exact Lexer.decimal_of_working work hl hrest hwhole
  | halted => cases hs
  | failed => cases hs

/-- In `1.5` there is no exponent, and two steps lead to the number. -/
theorem numbers_with_point_noExponent :
    ['1', '.', '5'].length < UInt32.size ∧
      Lexer.Decimal ['1', '.', '5'] "shell" [] 0 ['1'] ['5'] := by
  have h : ['1', '.', '5'].length < UInt32.size := by decide
  have hqueue : (Lexer.step^[2] (Lexer.ofRunes ['1', '.', '5'] "shell")).queue = [] := by
    decide +kernel
  have hoffset : (Lexer.step^[2] (Lexer.ofRunes ['1', '.', '5'] "shell")).position.offset = 0 := by
    decide +kernel
  obtain ⟨-, -, -, hnumbers⟩ := numbers_with_point h .checked "shell"
  have hdecimal := hnumbers 2 ['1'] ['5'] (by decide +kernel) (by rw [hoffset]; rfl)
    (List.all_eq_true.mp (by decide +kernel))
  rw [hqueue, hoffset] at hdecimal
  exact ⟨h, hdecimal⟩

/-- A fraction need not have a digit: `1._e1` is read as a float. -/
theorem float_of_underscore :
    (Lexer.ofRunes ['1', '.', '_', 'e', '1'] "shell").tokens.1
      = [⟨.float, String.ofList (['1', '.'] ++ ['_'] ++ ['e', '1']), 0, 5, "shell"⟩] ∧
    (Lexer.ofRunes ['1', '.', '_', 'e', '1'] "shell").tokens.2.error = none ∧
    ['_'].any Rune.isDigit = false := by
  decide +kernel

end ExprYard
