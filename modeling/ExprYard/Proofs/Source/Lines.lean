import ExprYard.Source.Line

/-!
# The line of an offset

Every offset of a source, its end included, is on a line, and `lineAt` finds it. `Line.Holds` says
what that means without a word about how lines are found: the line is what stands between one
newline and the next, and its column counts from its first rune to the offset.
-/

namespace ExprYard

/-! ## Pieces -/

/-- Pieces of a list that was cut behind each mark: each but the last ends with a mark, which the
last may lack, and no mark stands anywhere else. -/
inductive Text.Cut {α : Type} (mark : α) : List (List α) → Prop where
  | nil : Cut mark []
  | last {piece : List α} (hn : piece ≠ []) (h : mark ∉ piece) : Cut mark [piece]
  | cons {body : List α} {pieces : List (List α)} (h : mark ∉ body) (rest : Cut mark pieces) :
      Cut mark ((body ++ [mark]) :: pieces)

theorem Text.cut_splitAfter {α : Type} [DecidableEq α] (mark : α) (as : List α) :
    Text.Cut mark (Text.splitAfter mark as) := by
  induction as with
  | nil => exact .nil
  | cons a rest ih =>
    unfold Text.splitAfter
    generalize Text.splitAfter mark rest = pieces at ih
    by_cases ha : a = mark
    · rw [if_pos ha, ha]
      exact .cons List.not_mem_nil ih
    · rw [if_neg ha]
      have extend : ∀ body : List α, mark ∉ body → mark ∉ a :: body := fun body h => by
        rw [List.mem_cons, not_or]
        exact ⟨Ne.symm ha, h⟩
      cases ih with
      | nil => exact .last (List.cons_ne_nil _ _) (extend [] List.not_mem_nil)
      | last hn h => exact .last (List.cons_ne_nil _ _) (extend _ h)
      | cons h rest => exact .cons (extend _ h) rest

/-! ## Lines that hold an offset -/

/-- The line stands in a text whose first line has the given number, and at its column is the offset
of that text. No newline is in the line but at its end, and only the last line lacks that one. The
column is that of a rune, or it is behind the last rune of the text. -/
def Line.HoldsFrom (line : Line) (first : Nat) (text : List Char) (offset : Nat) : Prop :=
  ∃ before after, text = before ++ line.text ++ after ∧ offset = before.length + line.column ∧
    line.number = first + before.count '\n' ∧ (∀ r ∈ before.getLast?, r = '\n') ∧
    '\n' ∉ line.text.dropLast ∧ (after ≠ [] → line.text.getLast? = some '\n') ∧
    (line.column < line.text.length ∨ line.column = line.text.length ∧ after = [])

/-- The line stands in the source, and at its column is the offset. -/
def Line.Holds (line : Line) (source : List Char) (offset : Nat) : Prop :=
  line.HoldsFrom 1 source offset

namespace Line

variable {line : Line} {lines : List (List Char)} {first offset : Nat} {text body : List Char}

/-- A line behind another one. -/
theorem HoldsFrom.cons (h : line.HoldsFrom (first + 1) text offset) (hbody : '\n' ∉ body) :
    line.HoldsFrom first (body ++ ['\n'] ++ text) (offset + (body ++ ['\n']).length) := by
  obtain ⟨before, after, rfl, rfl, hnumber, hbefore, hline, hafter, hcolumn⟩ := h
  refine ⟨body ++ ['\n'] ++ before, after, by simp, ?_, ?_, ?_, hline, hafter, hcolumn⟩
  · simp only [List.length_append]
    omega
  · rw [List.count_append, List.count_append, List.count_eq_zero_of_not_mem hbody, hnumber,
      List.count_singleton_self]
    omega
  · intro r hr
    rw [List.getLast?_append, List.getLast?_append] at hr
    cases hlast : before.getLast? with
    | none =>
      rw [hlast] at hr
      cases hr
      rfl
    | some s =>
      rw [hlast] at hr
      cases hr
      exact hbefore r hlast

/-- An offset of one of the runes of the first line. -/
theorem holdsFrom_body {after : List Char} (hbody : '\n' ∉ body) (h : offset < body.length + 1) :
    HoldsFrom ⟨first, body ++ ['\n'], offset⟩ first (body ++ ['\n'] ++ after) offset := by
  refine ⟨[], after, by simp, by simp, rfl, (fun r hr => nomatch hr), ?_, fun _ => by simp,
    .inl ?_⟩
  · rwa [List.dropLast_concat]
  · rwa [List.length_append]

/-- An offset of a line without a newline, which is the last one. -/
theorem holdsFrom_last (htext : '\n' ∉ text) (h : offset ≤ text.length) :
    HoldsFrom ⟨first, text, offset⟩ first text offset := by
  refine ⟨[], [], by simp, by simp, rfl, (fun r hr => nomatch hr),
    fun hm => htext (List.dropLast_subset _ hm), fun hn => (hn rfl).elim, ?_⟩
  rcases Nat.lt_or_eq_of_le h with h | h
  · exact .inl h
  · exact .inr ⟨h, rfl⟩

/-- The line that is found for an offset of a rune. -/
theorem exists_locate (first : Nat) (h : Text.Cut '\n' lines) (hoffset : offset < lines.flatten.length) :
    ∃ line, locate first offset lines = some line ∧
      line.HoldsFrom first lines.flatten offset := by
  induction h generalizing first offset with
  | nil => exact absurd hoffset (Nat.not_lt_zero _)
  | @last piece hn h =>
    rw [List.flatten_singleton] at hoffset ⊢
    refine ⟨⟨first, piece, offset⟩, ?_, holdsFrom_last h (Nat.le_of_lt hoffset)⟩
    unfold locate
    rw [if_pos hoffset]
  | @cons body pieces h rest ih =>
    unfold locate
    rw [List.flatten_cons] at hoffset ⊢
    by_cases hline : offset < (body ++ ['\n']).length
    · rw [if_pos hline]
      rw [List.length_append] at hline
      exact ⟨_, rfl, holdsFrom_body h hline⟩
    · rw [if_neg hline]
      rw [List.length_append] at hoffset
      have hrest : offset - (body ++ ['\n']).length < pieces.flatten.length := by omega
      obtain ⟨line, hlocate, hholds⟩ := ih (first + 1) hrest
      refine ⟨line, hlocate, ?_⟩
      have hmoved := hholds.cons h
      rwa [Nat.sub_add_cancel (Nat.le_of_not_lt hline)] at hmoved

/-- Behind the last rune no line is found. -/
theorem locate_eq_none (h : lines.flatten.length ≤ offset) : locate first offset lines = none := by
  induction lines generalizing first offset with
  | nil => rfl
  | cons piece lines ih =>
    rw [List.flatten_cons, List.length_append] at h
    unfold locate
    rw [if_neg (by omega)]
    exact ih (by omega)

/-- The end of the text is behind the last line. -/
theorem holdsFrom_atEnd (h : Text.Cut '\n' lines) :
    (atEnd lines).HoldsFrom 1 lines.flatten lines.flatten.length := by
  suffices hlast : ∀ first, HoldsFrom ⟨first + (lines.length - 1), lines.getLast?.getD [],
      (lines.getLast?.getD []).length⟩ first lines.flatten lines.flatten.length by
    have hnumber : max 1 lines.length = 1 + (lines.length - 1) := by omega
    unfold atEnd
    rw [hnumber]
    exact hlast 1
  induction h with
  | nil => exact fun first => holdsFrom_last List.not_mem_nil (Nat.le_refl 0)
  | last hn h =>
    intro first
    rw [List.flatten_singleton]
    exact holdsFrom_last h (Nat.le_refl _)
  | @cons body pieces h rest ih =>
    intro first
    rw [List.flatten_cons]
    cases pieces with
    | nil =>
      refine ⟨[], [], by simp, by simp, by simp, (fun r hr => nomatch hr), ?_,
        fun hn => (hn rfl).elim, .inr ⟨rfl, rfl⟩⟩
      show '\n' ∉ (body ++ ['\n']).dropLast
      rwa [List.dropLast_concat]
    | cons piece pieces =>
      have hmoved := (ih (first + 1)).cons h
      rw [List.length_append, Nat.add_comm (body ++ ['\n']).length]
      simpa [Nat.add_assoc, Nat.add_comm 1] using hmoved

end Line

/-- The rune at the offset is the one at the column, and at the end of the source there is none. -/
theorem Line.Holds.getElem?_eq {line : Line} {source : List Char} {offset : Nat}
    (h : line.Holds source offset) : source[offset]? = line.text[line.column]? := by
  obtain ⟨before, after, rfl, rfl, -, -, -, -, hcolumn⟩ := h
  rw [List.append_assoc, List.getElem?_append_right (Nat.le_add_right _ _),
    Nat.add_sub_cancel_left]
  rcases hcolumn with hlt | ⟨-, rfl⟩
  · rw [List.getElem?_append_left hlt]
  · rw [List.append_nil]

theorem Line.Holds.newline_not_mem {line : Line} {source : List Char} {offset : Nat}
    (h : line.Holds source offset) : '\n' ∉ line.text.dropLast := by
  obtain ⟨before, after, -, -, -, -, hline, -⟩ := h
  exact hline

theorem Line.Holds.column_le {line : Line} {source : List Char} {offset : Nat}
    (h : line.Holds source offset) : line.column ≤ line.text.length := by
  obtain ⟨before, after, -, -, -, -, -, -, hlt | ⟨heq, -⟩⟩ := h
  · exact Nat.le_of_lt hlt
  · exact Nat.le_of_eq heq

/-- The end of the source is at the end of its line. -/
theorem Line.Holds.column_of_end {line : Line} {source : List Char} {offset : Nat}
    (h : line.Holds source offset) (hend : offset = source.length) :
    line.column = line.text.length := by
  obtain ⟨before, after, hsource, hoffset, -, -, -, -, hlt | ⟨heq, -⟩⟩ := h
  · rw [hoffset, hsource] at hend
    simp only [List.length_append] at hend
    omega
  · exact heq

/-- Every offset of a source is on a line, and so is its end. -/
theorem exists_lineAt {source : List Char} {offset : Nat} (h : offset ≤ source.length) :
    ∃ line, lineAt source offset = some line ∧ line.Holds source offset := by
  have hcut := Text.cut_splitAfter '\n' source
  have hflatten := Text.flatten_splitAfter '\n' source
  unfold lineAt Line.split Line.Holds
  dsimp only
  generalize Text.splitAfter '\n' source = lines at hcut hflatten
  subst hflatten
  rcases Nat.lt_or_eq_of_le h with h | rfl
  · obtain ⟨line, hlocate, hholds⟩ := Line.exists_locate 1 hcut h
    rw [hlocate]
    exact ⟨line, rfl, hholds⟩
  · rw [Line.locate_eq_none (Nat.le_refl _)]
    dsimp only
    rw [if_pos rfl]
    exact ⟨_, rfl, Line.holdsFrom_atEnd hcut⟩

end ExprYard
