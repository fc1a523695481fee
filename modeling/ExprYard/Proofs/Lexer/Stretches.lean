import ExprYard.Proofs.Lexer.Continuing
import ExprYard.Proofs.Lexer.Recognizing

/-!
# Stretches of words

`Stance.Scans` strings together what the automaton allows at one spot after the other. It is all that
the reading of a text is, up to where the text ends or a problem is met (`reading_of_scans`,
`exists_scans`).

Words look at what stands behind them, but not hard: whether a rune goes on with them, and which rune
comes next beyond the blanks. Where two texts have the same words one by one, and none of them sees a
difference behind it (`Behind`), both are scanned in the same way (`Stance.Scans.twin`).
-/

namespace ExprYard

/-- Words that are read one phrase after the other, from a spot where no blank stands. -/
inductive Stance.Scans : Stance → Spot → List Word → Stance → Prop where
  | nil (s : Stance) (a : Spot) : Scans s a [] s
  | cons {s next last : Stance} {a : Spot} {vs ws : List Word} (reads : s.Reads a vs next)
      (scans : Scans next (a.beyond vs) ws last) : Scans s a (vs ++ ws) last

/-- What is scanned is read, and the reading goes on behind it. -/
theorem reading_of_scans {s last : Stance} {b : Spot} {ws : List Word} (h : s.Scans b ws last)
    (a : Spot) (hb : a.skip = b) :
    reading s a = (b.utter ws ++ (reading last (b.beyond ws)).1, (reading last (b.beyond ws)).2) := by
  induction h generalizing a with
  | nil s b =>
    subst hb
    exact reading_of_skip a.skip_skip.symm
  | @cons s next last b vs ws reads scans ih =>
    subst hb
    obtain ⟨c, hphrase, hc⟩ := reads.phrase
    rw [reading_of_read hphrase, ih c hc, Spot.utter_append, Spot.beyond_append, List.append_assoc]

/-- What is read without a problem is scanned, up to the end of the text. -/
theorem exists_scans (s : Stance) (a : Spot) (h : (reading s a).2 = none) :
    ∃ ws last, s.Scans a.skip ws last ∧ last.mode.state.mayEnd = true ∧
      (a.skip.beyond ws).skip.rest = [] := by
  cases hp : phrase s a with
  | ended =>
    obtain ⟨hm, hrest⟩ := phrase_eq_ended.mp hp
    refine ⟨[], s, .nil s a.skip, hm, ?_⟩
    rw [Spot.beyond, Spot.skip_skip, hrest]
  | failed d =>
    rw [reading_of_failed hp] at h
    cases h
  | read ts next b =>
    rw [reading_of_read hp] at h
    obtain ⟨vs, hreads, -, hb⟩ := reads_of_phrase hp
    have hlt := length_lt_of_phrase hp
    obtain ⟨ws, last, hscans, hm, hrest⟩ := exists_scans next b h
    rw [hb] at hscans hrest
    refine ⟨vs ++ ws, last, .cons hreads hscans, hm, ?_⟩
    rw [Spot.beyond_append]
    exact hrest
termination_by a.rest.length

/-! ## What a word sees behind it -/

/-- Behind a word `y` may stand in place of `x`: it does not go on with the word where `x` does not,
and beyond the blanks the same rune comes next. A closing parenthesis makes no difference. -/
structure Behind (x y : List Char) : Prop where
  next : ∀ r ∈ y.head?, r ∈ x.head? ∨ Rune.isBlank r = true ∨ r = ')'
  ahead : ∀ r, r ≠ ')' → ((y.dropWhile Rune.isBlank).head? = some r ↔
    (x.dropWhile Rune.isBlank).head? = some r)

theorem Behind.refl (x : List Char) : Behind x x :=
  ⟨fun _ hr => .inl hr, fun _ _ => Iff.rfl⟩

section

variable {x y : List Char} {declared : Prop} {kind : Kind}

theorem Behind.stops {p : Char → Bool} (h : Behind x y) (hx : Stops p x)
    (blank : ∀ r, Rune.isBlank r = true → p r = false) (closing : p ')' = false) : Stops p y := by
  intro r hr
  rcases h.next r hr with hr | hr | rfl
  · exact hx r hr
  · exact blank r hr
  · exact closing

theorem Behind.opens (h : Behind x y) : Opens y ↔ Opens x :=
  h.ahead '(' (by decide)

/-- A text of a kind ends before `y` as it ends before `x`. -/
theorem Kind.Ends.behind (h : kind.Ends declared x) (hb : Behind x y) : kind.Ends declared y := by
  have hname : Stops Rune.continuesName x → Stops Rune.continuesName y := fun hx =>
    hb.stops hx (fun _ => Rune.continuesName_of_isBlank) (by decide +kernel)
  have hnumber : Stops Rune.inNumber x → Stops Rune.inNumber y := fun hx =>
    hb.stops hx (fun _ => Rune.inNumber_of_isBlank) (by decide +kernel)
  cases kind with
  | identifier => exact ⟨hname h.1, fun hd hopens => h.2 hd (hb.opens.mp hopens)⟩
  | function => exact ⟨hname h.1, h.2.1, hb.opens.mpr h.2.2⟩
  | integer =>
    refine ⟨hnumber h.1, ?_⟩
    intro hpoint
    rcases hb.next '.' hpoint with hr | hr | hr
    · exact h.2 hr
    · exact absurd hr (by decide)
    · exact absurd hr (by decide)
  | float => exact hnumber h
  | keyword word => cases word <;> first | exact hname h | trivial
  | type word => exact hname h
  | operator op =>
    intro r hr
    rcases hb.next r hr with hx | hblank | hclosing
    · exact h r hx
    · apply Bool.eq_false_iff.mpr
      intro hbegins
      have hin := Operator.inOperator_of_begins hbegins
      rw [Rune.inOperator_of_isBlank hblank] at hin
      cases hin
    · subst hclosing
      apply Bool.eq_false_iff.mpr
      intro hbegins
      exact absurd (Operator.inOperator_of_begins hbegins) (by decide)
  | _ => trivial

end

/-! ## Twins -/

namespace Spot

/-- The words that stand at `a` stand at `b` too, and see no difference behind them. -/
def Twins (a b : Spot) : List Word → Prop
  | [] => True
  | (_, w) :: ws =>
    b.Stands w ∧ Behind (a.past w).rest (b.past w).rest ∧ Twins (a.past w).skip (b.past w).skip ws

theorem twins_append {a b : Spot} {vs ws : List Word} :
    Twins a b (vs ++ ws) ↔ Twins a b vs ∧ Twins (a.beyond vs) (b.beyond vs) ws := by
  induction vs generalizing a b with
  | nil => exact (and_iff_right trivial).symm
  | cons v vs ih =>
    show _ ∧ _ ∧ Twins _ _ (vs ++ ws) ↔ (_ ∧ _ ∧ _) ∧ _
    rw [ih, and_assoc, and_assoc]
    rfl

theorem Lexeme.twin {a b : Spot} {declared : Prop} {kind : Kind} {w : List Char}
    (h : a.Lexeme declared kind w) (stands : b.Stands w)
    (behind : Behind (a.past w).rest (b.past w).rest) : b.Lexeme declared kind w :=
  ⟨stands, h.spells, h.ends.behind behind⟩

end Spot

/-- What is read stands there. -/
theorem Stance.Reads.stands {s next : Stance} {a : Spot} {ws : List Word}
    (h : s.Reads a ws next) : a.Twins a ws := by
  cases h with
  | word lexeme => exact ⟨lexeme.stands, .refl _, trivial⟩
  | typed _ name colon =>
    exact ⟨name.stands, .refl _, colon.stands, .refl _, trivial⟩
  | call _ name _ opening =>
    exact ⟨name.stands, .refl _, opening.stands, .refl _, trivial⟩

/-- What is scanned stands there. -/
theorem Stance.Scans.stands {s last : Stance} {a : Spot} {ws : List Word}
    (h : s.Scans a ws last) : a.Twins a ws := by
  induction h with
  | nil s a => trivial
  | cons reads scans ih => exact Spot.twins_append.mpr ⟨reads.stands, ih⟩

/-- Twins are read in the same way. -/
theorem Stance.Reads.twin {s next : Stance} {a b : Spot} {ws : List Word} (h : s.Reads a ws next)
    (twins : a.Twins b ws) : s.Reads b ws next := by
  cases h with
  | word lexeme fits after untyped =>
    obtain ⟨stands, behind, -⟩ := twins
    refine .word (lexeme.twin stands behind) fits after fun hm hcolon => untyped hm ?_
    exact (behind.ahead ':' (by decide)).mp hcolon
  | typed mode name colon =>
    obtain ⟨stands, behind, stands', behind', -⟩ := twins
    exact .typed mode (name.twin stands behind) (colon.twin stands' behind')
  | call awaits name fits opening =>
    obtain ⟨stands, behind, stands', behind', -⟩ := twins
    exact .call awaits (name.twin stands behind) fits (opening.twin stands' behind')

theorem Stance.Scans.twin {s last : Stance} {a b : Spot} {ws : List Word} (h : s.Scans a ws last)
    (twins : a.Twins b ws) : s.Scans b ws last := by
  induction h generalizing b with
  | nil s a => exact .nil s b
  | cons reads scans ih =>
    obtain ⟨hvs, hws⟩ := Spot.twins_append.mp twins
    exact .cons (reads.twin hvs) (ih hws)

end ExprYard
