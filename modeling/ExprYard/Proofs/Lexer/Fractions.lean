import ExprYard.Proofs.Lexer.Phrases

/-!
# Behind the point of a number

Behind the point of a number there have to be a fraction and an exponent with an `e` between them,
and neither may be empty (`IsFraction`). A text has them in one way only, as they are runs, and so
`Stance.fraction` can be told by the text behind the point: `fraction_of_isFraction` is the case in
which they are there, and `fraction_of_none` the other.

The runes of a fraction are digits and underscores, but none of them has to be a digit:
`IsDigits.digit_or_underscores` says how far a fraction may depart from what its name says.
-/

namespace ExprYard

theorem inNumber_point : Rune.inNumber '.' = false := by
  decide +kernel

theorem inNumber_e : Rune.inNumber 'e' = false := by
  decide +kernel

/-- Runes that may stand in a number have a digit among them, or they are underscores. -/
theorem IsDigits.digit_or_underscores {runes : List Char} (h : IsDigits runes) :
    (∃ r ∈ runes, Rune.isDigit r = true) ∨ ∀ r ∈ runes, r = '_' := by
  by_cases hdigit : ∃ r ∈ runes, Rune.isDigit r = true
  · exact .inl hdigit
  · refine .inr ?_
    intro r hr
    rcases (Bool.or_eq_true ..).mp (h.2 r hr) with hnumeric | hunderscore
    · exact (hdigit ⟨r, hr, hnumeric⟩).elim
    · exact of_decide_eq_true hunderscore

/-- Behind a point stand a fraction and an exponent, and something that does not go on with the
exponent. -/
structure IsFraction (tail fraction exponent behind : List Char) : Prop where
  stands : tail = fraction ++ 'e' :: (exponent ++ behind)
  fraction : IsDigits fraction
  exponent : IsDigits exponent
  ends : Stops Rune.inNumber behind

/-- What is consumed behind a point with no float: the fraction, and the `e` that follows it if the
fraction is not empty. -/
def brokenFraction (tail : List Char) : List Char :=
  if (tail.dropWhile Rune.inNumber).head? = some 'e' ∧ tail.takeWhile Rune.inNumber ≠ [] then
    tail.takeWhile Rune.inNumber ++ ['e']
  else tail.takeWhile Rune.inNumber

namespace IsFraction

variable {tail fraction exponent behind : List Char}

theorem takeWhile (h : IsFraction tail fraction exponent behind) :
    tail.takeWhile Rune.inNumber = fraction := by
  rw [h.stands, List.takeWhile_append_of_pos h.fraction.2,
    List.takeWhile_cons_of_neg (by rw [inNumber_e]; decide), List.append_nil]

theorem dropWhile (h : IsFraction tail fraction exponent behind) :
    tail.dropWhile Rune.inNumber = 'e' :: (exponent ++ behind) := by
  rw [h.stands, List.dropWhile_append_of_pos h.fraction.2,
    List.dropWhile_cons_of_neg (by rw [inNumber_e]; decide)]

/-- A fraction and an exponent are runs, so a text has them in one way only. -/
theorem takeWhile_behind (h : IsFraction tail fraction exponent behind) :
    (tail.dropWhile Rune.inNumber).tail.takeWhile Rune.inNumber = exponent := by
  rw [h.dropWhile]
  show (exponent ++ behind).takeWhile Rune.inNumber = exponent
  rw [List.takeWhile_append_of_pos h.exponent.2, h.ends.takeWhile, List.append_nil]

/-- The runs behind a point are a fraction and an exponent if they are not empty. -/
theorem of_runs (he : (tail.dropWhile Rune.inNumber).head? = some 'e')
    (hf : tail.takeWhile Rune.inNumber ≠ [])
    (hx : (tail.dropWhile Rune.inNumber).tail.takeWhile Rune.inNumber ≠ []) :
    IsFraction tail (tail.takeWhile Rune.inNumber)
      ((tail.dropWhile Rune.inNumber).tail.takeWhile Rune.inNumber)
      ((tail.dropWhile Rune.inNumber).tail.dropWhile Rune.inNumber) where
  stands := by
    obtain ⟨rest, hrest⟩ := List.head?_eq_some_iff.mp he
    have hruns := List.takeWhile_append_dropWhile (p := Rune.inNumber) (l := tail)
    rw [hrest] at hruns ⊢
    rw [List.tail_cons, List.takeWhile_append_dropWhile]
    exact hruns.symm
  fraction := ⟨hf, fun _ hr => List.mem_takeWhile_imp hr⟩
  exponent := ⟨hx, fun _ hr => List.mem_takeWhile_imp hr⟩
  ends := by
    intro r hr
    have hnot := List.head?_dropWhile_not Rune.inNumber (tail.dropWhile Rune.inNumber).tail
    rw [hr] at hnot
    exact hnot

end IsFraction

variable {s : Stance} {a : Spot} {whole tail : List Char}

/-- A number that stands at a spot runs to its point. -/
theorem Spot.run_of_point (h : a.rest = whole ++ '.' :: tail)
    (hwhole : ∀ r ∈ whole, Rune.inNumber r = true) : a.run Rune.inNumber = whole := by
  apply Spot.run_of_rest h hwhole
  intro r hr
  cases hr
  exact inNumber_point

namespace Stance

/-- The runs of a number that stands at a spot, as runs of the text behind its point. -/
theorem fraction_of_rest (h : a.rest = whole ++ '.' :: tail) :
    s.fraction a whole =
      if (tail.dropWhile Rune.inNumber).head? = some 'e' ∧ tail.takeWhile Rune.inNumber ≠ [] then
        if (tail.dropWhile Rune.inNumber).tail.takeWhile Rune.inNumber ≠ [] then
          a.reads .float (whole ++ '.' :: (tail.takeWhile Rune.inNumber ++ 'e' ::
            (tail.dropWhile Rune.inNumber).tail.takeWhile Rune.inNumber)) (s.goto .afterOperand)
        else a.fails (.malformedFloat (String.ofList (whole ++ '.' ::
          (tail.takeWhile Rune.inNumber ++ ['e']))))
      else a.fails (.malformedFloat (String.ofList (whole ++ '.' ::
        tail.takeWhile Rune.inNumber))) := by
  have hbehind : (a.past (whole ++ ['.'])).rest = tail := by
    apply Spot.past_of_rest
    rw [h, List.append_assoc]
    rfl
  have hdigits : (a.past (whole ++ ['.'])).run Rune.inNumber = tail.takeWhile Rune.inNumber := by
    rw [Spot.run, hbehind]
  have hdrop := Spot.rest_past_run (a.past (whole ++ ['.'])) Rune.inNumber
  rw [hbehind, hdigits] at hdrop
  have hexponent : ((a.past (whole ++ ['.'])).past
      (tail.takeWhile Rune.inNumber ++ ['e'])).run Rune.inNumber
        = (tail.dropWhile Rune.inNumber).tail.takeWhile Rune.inNumber := by
    rw [← Spot.past_past, ← List.drop_one, ← hdrop]
    rfl
  unfold fraction Spot.ahead
  dsimp only
  rw [hdigits, hdrop, hexponent]

/-- A fraction and an exponent make a float. -/
theorem fraction_of_isFraction {fraction exponent behind : List Char}
    (h : a.rest = whole ++ '.' :: tail) (hf : IsFraction tail fraction exponent behind) :
    s.fraction a whole = a.reads .float (whole ++ '.' :: (fraction ++ 'e' :: exponent))
      (s.goto .afterOperand) := by
  rw [fraction_of_rest h, hf.takeWhile, hf.takeWhile_behind, hf.dropWhile,
    if_pos ⟨rfl, hf.fraction.1⟩, if_pos hf.exponent.1]

/-- Without them there is a problem, and its literal is what has been consumed. -/
theorem fraction_of_none (h : a.rest = whole ++ '.' :: tail)
    (hnone : ∀ fraction exponent behind, ¬ IsFraction tail fraction exponent behind) :
    s.fraction a whole
      = a.fails (.malformedFloat (String.ofList (whole ++ '.' :: brokenFraction tail))) := by
  rw [fraction_of_rest h]
  unfold brokenFraction
  by_cases he : (tail.dropWhile Rune.inNumber).head? = some 'e' ∧
      tail.takeWhile Rune.inNumber ≠ []
  · rw [if_pos he, if_pos he]
    by_cases hx : (tail.dropWhile Rune.inNumber).tail.takeWhile Rune.inNumber ≠ []
    · exact (hnone _ _ _ (.of_runs he.1 he.2 hx)).elim
    · rw [if_neg hx]
  · rw [if_neg he, if_neg he]

/-- A number with a point goes on behind the point. -/
theorem number_of_point (h : a.rest = whole ++ '.' :: tail)
    (hwhole : ∀ r ∈ whole, Rune.inNumber r = true) : s.number a = s.fraction a whole := by
  have hrun := Spot.run_of_point h hwhole
  have hpoint : (a.past whole).ahead = some '.' := Spot.ahead_of_rest (Spot.past_of_rest h)
  unfold number
  dsimp only
  rw [hrun, if_pos hpoint]

end Stance

end ExprYard
