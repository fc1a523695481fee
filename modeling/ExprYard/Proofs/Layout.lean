import ExprYard.Proofs.Grammar.Language
import ExprYard.Proofs.Lexer.Phrasing
import ExprYard.Proofs.Lexer.Printing
import ExprYard.Proofs.Lexer.Stretches
import ExprYard.Proofs.Parser.Backdrop
import Mathlib.Logic.Relation

/-!
# Layout

How many blanks stand between two tokens is of no interest, as long as there are some or there need
not be any. Blanks may be inserted wherever no token stands, and a gap may be replaced by another
gap: the same words stand in the text then, and none of them sees a difference behind it
(`twins_of_gap`). So they are read as the same tokens, in other places, and a parser comes to the
same trees or to the same problem, places aside (`layout_insignificant`).

A gap must not be closed: `let a` is two tokens, and `leta` is one.
-/

namespace ExprYard

/-! ## Gaps -/

/-- Nothing but blanks. -/
def IsGap (g : List Char) : Prop :=
  ∀ r ∈ g, Rune.isBlank r = true

section

variable {g h u v : List Char}

/-- Beyond the blanks of a gap comes what comes behind it. -/
theorem IsGap.dropWhile_append (hg : IsGap g) (v : List Char) :
    (g ++ v).dropWhile Rune.isBlank = v.dropWhile Rune.isBlank :=
  List.dropWhile_append_of_pos hg

/-- What stands behind a gap does not matter to what stands before it. -/
theorem dropWhile_append_of_cons {p : Char → Bool} {c : Char} {w : List Char}
    (hw : u.dropWhile p = c :: w) (x : List Char) : (u ++ x).dropWhile p = c :: (w ++ x) := by
  rw [List.dropWhile_append, hw]
  rfl

/-- One gap stands for another behind a word, and for none where there was none. -/
theorem behind_of_gap (hg : IsGap g) (hh : IsGap h) (hgh : g ≠ [] → h ≠ []) :
    Behind (u ++ (g ++ v)) (u ++ (h ++ v)) where
  next := by
    intro r hr
    cases u with
    | cons c u => exact .inl hr
    | nil =>
      cases hh' : h with
      | cons c w =>
        rw [hh'] at hr hh
        cases hr
        exact .inr (.inl (hh _ List.mem_cons_self))
      | nil =>
        have hnil : g = [] := by_contra fun hne => hgh hne hh'
        rw [hh'] at hr
        rw [hnil]
        exact .inl hr
  ahead := by
    intro r _
    cases hw : u.dropWhile Rune.isBlank with
    | nil =>
      have hu : IsGap u := List.dropWhile_eq_nil_iff.mp hw
      rw [hu.dropWhile_append, hu.dropWhile_append, hg.dropWhile_append, hh.dropWhile_append]
    | cons c w => rw [dropWhile_append_of_cons hw, dropWhile_append_of_cons hw]; rfl

end

/-! ## Texts that differ in a gap -/

/-- Only blanks are skipped of a text that has other runes. -/
theorem Spot.skip_append {a : Spot} {u z : List Char} (h : a.rest = u ++ z)
    (hu : u.dropWhile Rune.isBlank ≠ []) :
    a.skip.rest = u.dropWhile Rune.isBlank ++ z ∧
      a.skip.offset + (u.dropWhile Rune.isBlank).length = a.offset + u.length := by
  obtain ⟨c, x, hx⟩ := List.exists_cons_of_ne_nil hu
  have hrest : a.skip.rest = u.dropWhile Rune.isBlank ++ z := by
    rw [skip, h, hx]
    exact dropWhile_append_of_cons hx z
  refine ⟨hrest, ?_⟩
  -- Both sides count from here to the same end.
  have hfinish := a.leads_skip.finish.1
  rw [hrest, h, List.length_append, List.length_append] at hfinish
  omega

namespace Spot

variable {a b : Spot} {w : List Char} {ws : List Word}

theorem rest_past_congr (h : b.rest = a.rest) (w : List Char) : (b.past w).rest = (a.past w).rest :=
  congrArg (List.drop w.length) h

theorem rest_skip_congr (h : b.rest = a.rest) : b.skip.rest = a.skip.rest :=
  congrArg (List.dropWhile Rune.isBlank) h

/-- Words that stand at a spot stand wherever the same runes do. -/
theorem twins_of_rest (h : a.Twins a ws) (hb : b.rest = a.rest) : a.Twins b ws := by
  induction ws generalizing a b with
  | nil => trivial
  | cons v ws ih =>
    obtain ⟨stands, behind, twins⟩ := h
    have hpast := rest_past_congr hb v.2
    refine ⟨stands_of_rest (hb.trans stands), ?_, ih twins (rest_skip_congr hpast)⟩
    rw [hpast]
    exact behind

theorem rest_beyond_congr (hb : b.rest = a.rest) : (b.beyond ws).rest = (a.beyond ws).rest := by
  induction ws generalizing a b with
  | nil => exact hb
  | cons v ws ih => exact ih (rest_skip_congr (rest_past_congr hb v.2))

end Spot

section

variable {g h : List Char}

/-- In the place of a gap that no word lies on stands another gap: the words are the same ones, and
none of them sees a difference. Up to the gap both texts are the same, and behind it too. -/
theorem twins_of_gap (hg : IsGap g) (hh : IsGap h) (hgh : g ≠ [] → h ≠ []) (v : List Char)
    (ws : List Word) : ∀ (u : List Char) (a b : Spot), a.rest = u ++ (g ++ v) →
      b.rest = u ++ (h ++ v) → a.skip.Twins a.skip ws →
      (∀ t ∈ a.skip.utter ws, t.span.stop ≤ a.offset + u.length ∨
        a.offset + u.length + g.length ≤ t.span.start) →
      a.skip.Twins b.skip ws ∧
        ((a.skip.beyond ws).skip.rest = [] → (b.skip.beyond ws).skip.rest = []) := by
  induction ws with
  | nil =>
    intro u a b ha hb _ _
    refine ⟨trivial, ?_⟩
    intro hend
    rw [Spot.beyond, Spot.skip_skip, Spot.skip, ha, List.dropWhile_eq_nil_iff] at hend
    rw [Spot.beyond, Spot.skip_skip, Spot.skip, hb, List.dropWhile_eq_nil_iff]
    intro r hr
    rcases List.mem_append.mp hr with hr | hr
    · exact hend r (List.mem_append_left _ hr)
    rcases List.mem_append.mp hr with hr | hr
    · exact hh r hr
    · exact hend r (List.mem_append_right _ (List.mem_append_right _ hr))
  | cons word ws ih =>
    obtain ⟨kind, w⟩ := word
    intro u a b ha hb words clear
    cases hu : u.dropWhile Rune.isBlank with
    | nil =>
      -- The gap is all there is before the word.
      have hgap : IsGap u := List.dropWhile_eq_nil_iff.mp hu
      have hrest : b.skip.rest = a.skip.rest := by
        rw [Spot.skip, Spot.skip, ha, hb]
        dsimp only
        rw [hgap.dropWhile_append, hgap.dropWhile_append, hg.dropWhile_append, hh.dropWhile_append]
      refine ⟨Spot.twins_of_rest words hrest, ?_⟩
      intro hend
      exact (Spot.rest_skip_congr (Spot.rest_beyond_congr hrest)).trans hend
    | cons c x =>
      have hne : u.dropWhile Rune.isBlank ≠ [] := by
        rw [hu]
        exact List.cons_ne_nil c x
      obtain ⟨harest, haoffset⟩ := Spot.skip_append ha hne
      obtain ⟨hbrest, -⟩ := Spot.skip_append hb hne
      obtain ⟨stands, -, twins⟩ := words
      -- The word begins before the gap, so it ends there too.
      have hlength : w.length ≤ (u.dropWhile Rune.isBlank).length := by
        have hfirst := clear _ List.mem_cons_self
        have hpos := List.length_pos_iff.mpr hne
        simp only [Spot.token] at hfirst
        omega
      obtain ⟨y, hy⟩ : w <+: u.dropWhile Rune.isBlank :=
        List.prefix_of_prefix_length_le ⟨_, (harest.symm.trans stands).symm⟩
          (List.prefix_append _ _) hlength
      rw [← hy, List.append_assoc] at harest hbrest
      have hapast : (a.skip.past w).rest = y ++ (g ++ v) := Spot.past_of_rest harest
      have hbpast : (b.skip.past w).rest = y ++ (h ++ v) := Spot.past_of_rest hbrest
      have hoffset : (a.skip.past w).offset + y.length = a.offset + u.length := by
        rw [← haoffset, ← hy, List.length_append, ← Nat.add_assoc]
        rfl
      obtain ⟨htwins, hend⟩ := ih y _ _ hapast hbpast twins fun t ht => by
        rw [hoffset]
        exact clear t (List.mem_cons_of_mem _ ht)
      refine ⟨⟨Spot.stands_of_rest hbrest, ?_, htwins⟩, hend⟩
      show Behind (a.skip.past w).rest (b.skip.past w).rest
      rw [hapast, hbpast]
      exact behind_of_gap hg hh hgh

/-- A text without a problem is read as the same kinds and texts with another gap in it. -/
theorem reading_of_gap (hg : IsGap g) (hh : IsGap h) (hgh : g ≠ [] → h ≠ []) {u v : List Char}
    {s : Stance} {a b : Spot} (ha : a.rest = u ++ (g ++ v)) (hb : b.rest = u ++ (h ++ v))
    (clean : (reading s a).2 = none)
    (between : ∀ t ∈ (reading s a).1, t.span.stop ≤ a.offset + u.length ∨
      a.offset + u.length + g.length ≤ t.span.start) :
    (reading s b).1.map Token.view = (reading s a).1.map Token.view ∧ (reading s b).2 = none := by
  obtain ⟨ws, last, scans, may, hend⟩ := exists_scans s a clean
  have hread := reading_of_scans scans a rfl
  rw [reading_of_ended (phrase_eq_ended.mpr ⟨may, hend⟩), List.append_nil] at hread
  rw [hread] at between
  obtain ⟨htwins, hends⟩ := twins_of_gap hg hh hgh v ws u a b ha hb scans.stands between
  have hread' := reading_of_scans (scans.twin htwins) b rfl
  rw [reading_of_ended (phrase_eq_ended.mpr ⟨may, hends hend⟩), List.append_nil] at hread'
  rw [hread, hread', Spot.view_utter, Spot.view_utter]
  exact ⟨rfl, rfl⟩

end

/-! ## Layouts -/

/-- A source with another layout. -/
inductive Relaid (file : String) : List Char → List Char → Prop where
  /-- Blanks are inserted where no token stands. -/
  | insert {u h v : List Char} (blank : IsGap h)
      (boundary : ∀ t ∈ (Lexer.ofRunes (u ++ v) file).tokens.1,
        t.span.stop ≤ u.length ∨ u.length ≤ t.span.start) :
      Relaid file (u ++ v) (u ++ h ++ v)
  /-- Blanks between which no token stands give way to other blanks. -/
  | replace {u g h v : List Char} (old : IsGap g) (gap : g ≠ []) (blank : IsGap h) (kept : h ≠ [])
      (between : ∀ t ∈ (Lexer.ofRunes (u ++ g ++ v) file).tokens.1,
        t.span.stop ≤ u.length ∨ u.length + g.length ≤ t.span.start) :
      Relaid file (u ++ g ++ v) (u ++ h ++ v)

/-- A source in another layout has the same tokens in other places, and no problem. -/
theorem Relaid.reading {file : String} {source source' : List Char}
    (h : Relaid file source source') (clean : (reading .start (.first source file)).2 = none) :
    (ExprYard.reading .start (.first source' file)).1.map Token.view
        = (ExprYard.reading .start (.first source file)).1.map Token.view ∧
      (ExprYard.reading .start (.first source' file)).2 = none := by
  cases h with
  | @insert u h v blank boundary =>
    rw [(Lexer.tokens_eq_reading (u ++ v) file).1] at boundary
    apply reading_of_gap (g := []) (u := u) (v := v) nofun blank (fun hne => (hne rfl).elim) rfl
      (List.append_assoc u h v) clean
    intro t ht
    have hstart : (Spot.first (u ++ v) file).offset = 0 := rfl
    rw [hstart, Nat.zero_add]
    exact boundary t ht
  | @replace u g h v old gap blank kept between =>
    rw [(Lexer.tokens_eq_reading (u ++ g ++ v) file).1] at between
    apply reading_of_gap (u := u) (v := v) old blank (fun _ => kept)
      (List.append_assoc u g v) (List.append_assoc u h v) clean
    intro t ht
    have hstart : (Spot.first (u ++ g ++ v) file).offset = 0 := rfl
    rw [hstart, Nat.zero_add]
    exact between t ht

/-- A token without its place is what it is and how it is written. -/
theorem map_relocate_nowhere {ts us : List Token} (h : ts.map Token.view = us.map Token.view) :
    ts.map (Token.relocate .nowhere) = us.map (Token.relocate .nowhere) := by
  have hview : Token.relocate .nowhere
      = (fun view : Kind × String => (⟨view.1, view.2, 0, 0, ""⟩ : Token)) ∘ Token.view := rfl
  rw [hview, ← List.map_map, ← List.map_map, h]

/-- Layout does not matter. Let a source be lexed without a problem, and let blanks be inserted
where no token stands, or replace other blanks there, any number of times. Then it is lexed without
a problem to the same kinds and texts, and a parser comes to the same result, places aside: to the
same trees, or to the same problem. -/
theorem layout_insignificant (source source' : List Char) (file : String)
    (clean : ∀ t ∈ (Lexer.ofRunes source file).tokens.1, t.kind ≠ .error)
    (relaid : Relation.ReflTransGen (Relaid file) source source') :
    (Lexer.ofRunes source' file).tokens.1.map Token.view
        = (Lexer.ofRunes source file).tokens.1.map Token.view ∧
      (∀ t ∈ (Lexer.ofRunes source' file).tokens.1, t.kind ≠ .error) ∧
      relocateResult .nowhere (parseLexer (Lexer.ofRunes source' file)).1.2
        = relocateResult .nowhere (parseLexer (Lexer.ofRunes source file)).1.2 := by
  have hclean : (reading .start (.first source file)).2 = none := by
    rw [(Lexer.tokens_eq_reading source file).1] at clean
    exact problem_of_clean clean
  obtain ⟨hviews, -⟩ : (reading .start (.first source' file)).1.map Token.view
        = (reading .start (.first source file)).1.map Token.view ∧
      (reading .start (.first source' file)).2 = none := by
    induction relaid with
    | refl => exact ⟨rfl, hclean⟩
    | tail _ step ih =>
      obtain ⟨hview, hnone⟩ := step.reading ih.2
      exact ⟨hview.trans ih.1, hnone⟩
  rw [← (Lexer.tokens_eq_reading source' file).1, ← (Lexer.tokens_eq_reading source file).1]
    at hviews
  refine ⟨hviews, ?_, ?_⟩
  · intro t ht he
    -- A report would have been one before.
    have hmem : t.view ∈ (Lexer.ofRunes source file).tokens.1.map Token.view :=
      hviews ▸ List.mem_map_of_mem ht
    obtain ⟨u, hu, hsame⟩ := List.mem_map.mp hmem
    exact clean u hu ((congrArg Prod.fst hsame).trans he)
  · rw [parseLexer_ofRunes, parseLexer_ofRunes, ← Intake.conclude_relocate,
      ← Intake.conclude_relocate, map_relocate_nowhere hviews]

/-- The source `f(a, 1)` with a line break before the parenthesis, and two tabulators in the place of
the space, has the same tokens. -/
theorem layout_insignificant_call :
    (Lexer.ofRunes ['f', '\n', '(', 'a', ',', '\t', '\t', '1', ')'] "shell").tokens.1.map Token.view
      = [(.function, "f"), (.openParen, "("), (.identifier, "a"), (.keyword .comma, ","),
        (.integer, "1"), (.closeParen, ")")] := by
  have broken : Relaid "shell" ['f', '(', 'a', ',', ' ', '1', ')']
      ['f', '\n', '(', 'a', ',', ' ', '1', ')'] :=
    .insert (u := ['f']) (h := ['\n']) (v := ['(', 'a', ',', ' ', '1', ')'])
      (List.all_eq_true.mp (by decide)) (by decide +kernel)
  have spaced : Relaid "shell" ['f', '\n', '(', 'a', ',', ' ', '1', ')']
      ['f', '\n', '(', 'a', ',', '\t', '\t', '1', ')'] :=
    .replace (u := ['f', '\n', '(', 'a', ',']) (g := [' ']) (h := ['\t', '\t']) (v := ['1', ')'])
      (List.all_eq_true.mp (by decide)) nofun (List.all_eq_true.mp (by decide)) nofun
      (by decide +kernel)
  exact (layout_insignificant _ _ "shell" (by decide +kernel) (.tail (.single broken) spaced)).1.trans
    (by decide +kernel)

end ExprYard
