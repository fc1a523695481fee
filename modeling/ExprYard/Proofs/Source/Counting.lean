import ExprYard.Proofs.Source.Lines

/-!
# Lines, counted

A source has its lines in one way only: each but the last ends with a newline, which the last may
lack, and no newline stands anywhere else (`AreLines`, `AreLines.unique`). This module says where
among them `lineAt` puts an offset. It names a line by its number, and the runes of all lines before
that one and the column come to the offset (`Line.Counts`).

**The law** (`lineAt_iff_counts`): there is a line for the offsets of the source and for its end, for
no others, and it is the line that counts. The walk over the lines is `Line.locate`, and
`Line.locate_eq_some_iff` says what it finds, by induction on the lines: with each line that is
passed the number goes up, and the offset goes down by the runes of that line. The end of the source
is found by no walk. It is behind the last line, or on an empty line where there is none
(`Line.counted`).
-/

namespace ExprYard

/-! ## Pieces, once more -/

namespace Text

variable {α : Type} {mark : α} {pieces : List (List α)}

/-- No piece is empty. -/
theorem Cut.ne_nil (h : Cut mark pieces) : ∀ piece ∈ pieces, piece ≠ [] := by
  induction h with
  | nil =>
    intro piece hp
    cases hp
  | last hn h =>
    intro piece hp
    rw [List.mem_singleton.mp hp]
    exact hn
  | cons h rest ih =>
    intro piece hp
    rcases List.mem_cons.mp hp with rfl | hp
    · exact List.append_ne_nil_of_right_ne_nil _ (List.cons_ne_nil _ _)
    · exact ih piece hp

variable [DecidableEq α]

/-- The first piece ends with the first mark. -/
theorem splitAfter_append_mark {body : List α} (h : mark ∉ body) (rest : List α) :
    splitAfter mark (body ++ [mark] ++ rest) = (body ++ [mark]) :: splitAfter mark rest := by
  induction body with
  | nil =>
    show splitAfter mark (mark :: rest) = _
    rw [splitAfter, if_pos rfl]
    rfl
  | cons a body ih =>
    obtain ⟨ha, hbody⟩ := not_or.mp (mt List.mem_cons.mpr h)
    show splitAfter mark (a :: (body ++ [mark] ++ rest)) = _
    rw [splitAfter, if_neg (Ne.symm ha), ih hbody]
    rfl

/-- What has no mark is one piece. -/
theorem splitAfter_of_not_mem {as : List α} (hn : as ≠ []) (h : mark ∉ as) :
    splitAfter mark as = [as] := by
  induction as with
  | nil => exact (hn rfl).elim
  | cons a as ih =>
    obtain ⟨ha, has⟩ := not_or.mp (mt List.mem_cons.mpr h)
    rw [splitAfter, if_neg (Ne.symm ha)]
    by_cases hnil : as = []
    · rw [hnil]
      rfl
    · rw [ih hnil has]

/-- Pieces are told by what they are joined to. -/
theorem Cut.eq_splitAfter (h : Cut mark pieces) : pieces = splitAfter mark pieces.flatten := by
  induction h with
  | nil => rfl
  | last hn h =>
    rw [List.flatten_singleton]
    exact (splitAfter_of_not_mem hn h).symm
  | cons h rest ih =>
    rw [List.flatten_cons, splitAfter_append_mark h, ← ih]

end Text

/-! ## The lines of a source -/

/-- The lines are those of the source: joined they are the source, and it is cut behind its newlines
and nowhere else. -/
structure AreLines (lines : List (List Char)) (source : List Char) : Prop where
  joined : lines.flatten = source
  cut : Text.Cut '\n' lines

namespace AreLines

variable {lines others : List (List Char)} {source : List Char}

theorem split (source : List Char) : AreLines (Line.split source) source where
  joined := Text.flatten_splitAfter '\n' source
  cut := Text.cut_splitAfter '\n' source

/-- A source has its lines in one way only. -/
theorem unique (h : AreLines lines source) : lines = Line.split source := by
  have hlines := h.cut.eq_splitAfter
  rw [h.joined] at hlines
  exact hlines

end AreLines

namespace Line

variable {line : Line} {lines : List (List Char)} {text : List Char} {k first offset : Nat}

/-- The lines of a source as they are counted: where there are none, an empty one is. -/
def counted (lines : List (List Char)) : List (List Char) :=
  if lines = [] then [[]] else lines

/-- The line is one of the given lines, by its number, and at its column is the offset: the runes of
the lines before it come to the offset together with the column. The column is that of a rune of the
line, except at the end of all lines, where it is behind the last rune. -/
structure Counts (line : Line) (lines : List (List Char)) (offset : Nat) : Prop where
  positive : 1 ≤ line.number
  numbered : (counted lines)[line.number - 1]? = some line.text
  reaches : ((counted lines).take (line.number - 1)).flatten.length + line.column = offset
  within : if offset = lines.flatten.length then line.column = line.text.length
    else line.column < line.text.length

theorem counted_of_ne_nil (h : lines ≠ []) : counted lines = lines := by
  unfold counted
  rw [if_neg h]

theorem flatten_counted (lines : List (List Char)) :
    (counted lines).flatten = lines.flatten := by
  by_cases h : lines = []
  · rw [h]
    rfl
  · rw [counted_of_ne_nil h]

/-- The lines before a line, the line itself, and those behind it are all lines. -/
theorem length_flatten_of_getElem? (h : lines[k]? = some text) :
    (lines.take k).flatten.length + text.length + (lines.drop (k + 1)).flatten.length
      = lines.flatten.length := by
  obtain ⟨hk, htext⟩ := List.getElem?_eq_some_iff.mp h
  have hdrop : lines.drop k = text :: lines.drop (k + 1) := by
    rw [← htext]
    exact List.drop_eq_getElem_cons hk
  have hall : lines.flatten = (lines.take k).flatten ++ (lines.drop k).flatten := by
    rw [← List.flatten_append, List.take_append_drop]
  rw [hall, hdrop, List.flatten_cons, List.length_append, List.length_append, Nat.add_assoc]

/-- What is found for an offset is the line whose runes are counted past the offset, and the runes
that are left of the offset before it are its column. -/
theorem locate_eq_some_iff :
    locate first offset lines = some line ↔ ∃ k, line.number = first + k ∧
      lines[k]? = some line.text ∧ (lines.take k).flatten.length + line.column = offset ∧
      line.column < line.text.length := by
  induction lines generalizing first offset with
  | nil =>
    constructor
    · intro h
      cases h
    · rintro ⟨k, -, htext, -⟩
      cases htext
  | cons piece rest ih =>
    unfold locate
    by_cases hpiece : offset < piece.length
    · rw [if_pos hpiece]
      constructor
      · intro h
        cases h
        exact ⟨0, rfl, rfl, Nat.zero_add offset, hpiece⟩
      · rintro ⟨k, hnumber, htext, hoffset, hcolumn⟩
        cases k with
        | zero =>
          obtain ⟨number, text, column⟩ := line
          rw [List.take_zero, List.flatten_nil, List.length_nil, Nat.zero_add] at hoffset
          cases htext
          cases hnumber
          cases hoffset
          rfl
        | succ k =>
          rw [List.take_succ_cons, List.flatten_cons, List.length_append] at hoffset
          omega
    · rw [if_neg hpiece, ih]
      constructor
      · rintro ⟨k, hnumber, htext, hoffset, hcolumn⟩
        refine ⟨k + 1, ?_, htext, ?_, hcolumn⟩
        · omega
        · rw [List.take_succ_cons, List.flatten_cons, List.length_append]
          omega
      · rintro ⟨k, hnumber, htext, hoffset, hcolumn⟩
        cases k with
        | zero =>
          cases htext
          rw [List.take_zero, List.flatten_nil, List.length_nil] at hoffset
          omega
        | succ k =>
          rw [List.take_succ_cons, List.flatten_cons, List.length_append] at hoffset
          refine ⟨k, ?_, htext, ?_, hcolumn⟩
          · omega
          · omega

/-! ## The end of the lines -/

/-- The end of the lines is at the end of the last line that counts. -/
theorem atEnd_counts (lines : List (List Char)) :
    (atEnd lines).Counts lines lines.flatten.length := by
  by_cases hnil : lines = []
  · rw [hnil]
    exact ⟨Nat.le_refl 1, rfl, rfl, rfl⟩
  obtain ⟨before, last, rfl⟩ : ∃ before last, lines = before ++ [last] :=
    ⟨_, _, (List.dropLast_concat_getLast hnil).symm⟩
  have hnumber : (atEnd (before ++ [last])).number - 1 = before.length := by
    show max 1 (before ++ [last]).length - 1 = before.length
    rw [List.length_append, List.length_singleton]
    omega
  have htext : (atEnd (before ++ [last])).text = last := by
    show (before ++ [last]).getLast?.getD [] = last
    rw [List.getLast?_concat]
    rfl
  have hcolumn : (atEnd (before ++ [last])).column = last.length := congrArg List.length htext
  refine ⟨Nat.le_max_left _ _, ?_, ?_, ?_⟩
  · rw [counted_of_ne_nil hnil, hnumber, htext, List.getElem?_concat_length]
  · rw [counted_of_ne_nil hnil, hnumber, hcolumn, List.take_left, List.flatten_append,
      List.flatten_singleton, List.length_append]
  · rw [if_pos rfl]
    rfl

/-- Only the last line counts at the end of the lines. -/
theorem Counts.number_of_end (h : line.Counts lines lines.flatten.length)
    (hcut : Text.Cut '\n' lines) : line.number = (counted lines).length := by
  obtain ⟨hpositive, hnumbered, hreaches, hwithin⟩ := h
  rw [if_pos rfl] at hwithin
  have hlength := length_flatten_of_getElem? hnumbered
  rw [Nat.sub_add_cancel hpositive, flatten_counted, ← hreaches, hwithin] at hlength
  have hbehind : ((counted lines).drop line.number).flatten = [] :=
    List.length_eq_zero_iff.mp (by omega)
  obtain ⟨hlt, -⟩ := List.getElem?_eq_some_iff.mp hnumbered
  by_cases hnil : lines = []
  · rw [hnil] at hlt ⊢
    change line.number - 1 < 1 at hlt
    show line.number = 1
    omega
  rw [counted_of_ne_nil hnil] at hbehind hlt ⊢
  rcases Nat.lt_or_ge line.number lines.length with hmore | hlast
  · -- Lines behind this one would have runes, for no line is empty.
    have hmem : lines[line.number] ∈ lines.drop line.number := by
      rw [List.drop_eq_getElem_cons hmore]
      exact List.mem_cons_self
    have hempty := List.flatten_eq_nil_iff.mp hbehind _ hmem
    exact absurd hempty (hcut.ne_nil _ (List.mem_of_mem_drop hmem))
  · omega

theorem Counts.eq_atEnd (h : line.Counts lines lines.flatten.length)
    (hcut : Text.Cut '\n' lines) : line = atEnd lines := by
  have hend := atEnd_counts lines
  have hnumber := (h.number_of_end hcut).trans (hend.number_of_end hcut).symm
  have htext : line.text = (atEnd lines).text := by
    have hn := h.numbered
    rw [hnumber, hend.numbered] at hn
    exact (Option.some.inj hn).symm
  have hcolumn : line.column = (atEnd lines).column := by
    have hreaches := h.reaches
    rw [hnumber] at hreaches
    exact Nat.add_left_cancel (hreaches.trans hend.reaches.symm)
  obtain ⟨number, text, column⟩ := line
  cases hnumber
  cases htext
  cases hcolumn
  rfl

/-! ## Any offset -/

/-- Before the end, the line that is found is the one that counts. -/
theorem locate_eq_some_iff_counts (h : offset < lines.flatten.length) :
    locate 1 offset lines = some line ↔ line.Counts lines offset := by
  have hnil : lines ≠ [] := by
    rintro rfl
    exact Nat.not_lt_zero offset h
  rw [locate_eq_some_iff]
  constructor
  · rintro ⟨k, hnumber, htext, hoffset, hcolumn⟩
    have hk : line.number - 1 = k := by omega
    refine ⟨by omega, ?_, ?_, ?_⟩
    · rw [counted_of_ne_nil hnil, hk]
      exact htext
    · rw [counted_of_ne_nil hnil, hk]
      exact hoffset
    · rw [if_neg (Nat.ne_of_lt h)]
      exact hcolumn
  · rintro ⟨hpositive, hnumbered, hreaches, hwithin⟩
    rw [counted_of_ne_nil hnil] at hnumbered hreaches
    rw [if_neg (Nat.ne_of_lt h)] at hwithin
    exact ⟨line.number - 1, by omega, hnumbered, hreaches, hwithin⟩

/-- A line counts for the offsets up to the end only. -/
theorem Counts.offset_le (h : line.Counts lines offset) : offset ≤ lines.flatten.length := by
  obtain ⟨-, hnumbered, hreaches, hwithin⟩ := h
  have hlength := length_flatten_of_getElem? hnumbered
  rw [flatten_counted] at hlength
  by_cases hend : offset = lines.flatten.length
  · exact Nat.le_of_eq hend
  · rw [if_neg hend] at hwithin
    omega

end Line

/-- The line of an offset is the one that counts. -/
theorem lineAt_split (source : List Char) (offset : Nat) (line : Line) :
    lineAt source offset = some line ↔ line.Counts (Line.split source) offset := by
  have hjoined := (AreLines.split source).joined
  have hcut := (AreLines.split source).cut
  unfold lineAt
  dsimp only
  generalize Line.split source = lines at hjoined hcut
  subst hjoined
  rcases Nat.lt_trichotomy offset lines.flatten.length with hlt | rfl | hgt
  · obtain ⟨found, hlocate, -⟩ := Line.exists_locate 1 hcut hlt
    rw [← Line.locate_eq_some_iff_counts hlt, hlocate]
  · rw [Line.locate_eq_none (Nat.le_refl _)]
    dsimp only
    rw [if_pos rfl]
    constructor
    · intro h
      cases h
      exact Line.atEnd_counts lines
    · intro h
      rw [h.eq_atEnd hcut]
  · rw [Line.locate_eq_none (Nat.le_of_lt hgt)]
    dsimp only
    rw [if_neg (Nat.ne_of_gt hgt)]
    constructor
    · intro h
      cases h
    · intro h
      exact absurd h.offset_le (Nat.not_le_of_lt hgt)

/-- A source without a newline is one line. -/
theorem lineAt_of_not_mem {source : List Char} {offset : Nat} (h : '\n' ∉ source)
    (hlt : offset < source.length) : lineAt source offset = some ⟨1, source, offset⟩ := by
  have hsplit : Line.split source = [source] :=
    Text.splitAfter_of_not_mem (List.ne_nil_of_length_pos (Nat.zero_lt_of_lt hlt)) h
  unfold lineAt
  rw [hsplit]
  dsimp only
  rw [Line.locate, if_pos hlt]

/-- A line that is found is one that holds the offset. -/
theorem holds_of_lineAt {source : List Char} {offset : Nat} {line : Line}
    (h : lineAt source offset = some line) : line.Holds source offset := by
  have hle := ((lineAt_split source offset line).mp h).offset_le
  rw [(AreLines.split source).joined] at hle
  obtain ⟨found, hfound, holds⟩ := exists_lineAt hle
  rw [h] at hfound
  cases hfound
  exact holds

/-- A source has its lines in one way only. There is a line for an offset just where the offset is
not past the end of the source, and it is the line that counts: by its number among the lines of the
source, of which an empty source has an empty one, with the runes of the lines before it and its
column coming to the offset, and with a column that is that of a rune of it, or that is behind its
last rune at the end of the source. -/
theorem lineAt_iff_counts (source : List Char) :
    ∃ lines, AreLines lines source ∧ (∀ others, AreLines others source → others = lines) ∧
      ∀ offset, ((lineAt source offset).isSome ↔ offset ≤ source.length) ∧
        ∀ line, lineAt source offset = some line ↔ line.Counts lines offset := by
  refine ⟨Line.split source, AreLines.split source, fun others h => h.unique, ?_⟩
  intro offset
  refine ⟨?_, lineAt_split source offset⟩
  constructor
  · intro h
    obtain ⟨line, hline⟩ := Option.isSome_iff_exists.mp h
    have hle := ((lineAt_split source offset line).mp hline).offset_le
    rw [(AreLines.split source).joined] at hle
    exact hle
  · intro h
    obtain ⟨line, hline, -⟩ := exists_lineAt h
    rw [hline]
    rfl

/-- The end of a source whose last line ends with a newline is still on that line. -/
example : lineAt ['a', '\n'] 2 = some ⟨1, ['a', '\n'], 2⟩ := by
  decide

end ExprYard
