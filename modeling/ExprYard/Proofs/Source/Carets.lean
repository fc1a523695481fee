import ExprYard.Diagnostic
import ExprYard.Proofs.Source.Lines
import Mathlib.Data.List.DropRight

/-!
# Where the caret stands

A rendered diagnostic shows the line it stands on without the spaces before and the blanks behind
it, behind a label, and a caret under it. Where the diagnostic is at a rune that is no blank, or at
the end of the source, the spaces before the line do not reach its column, and the caret stands
under that column: under the rune itself, or behind the last one of the line.
-/

namespace ExprYard

/-! ## The shown part of a line -/

/-- What is cut off at the end of a text is made of blanks. -/
theorem Text.exists_trimEnd (text : List Char) :
    ∃ blanks, text = Text.trimEnd text ++ blanks ∧ ∀ r ∈ blanks, Rune.isBlank r = true := by
  refine ⟨(text.reverse.takeWhile Rune.isBlank).reverse, ?_, fun r hr => ?_⟩
  · unfold Text.trimEnd
    rw [← List.reverse_append, List.takeWhile_append_dropWhile, List.reverse_reverse]
  · exact List.mem_takeWhile_imp (List.mem_reverse.mp hr)

/-- A newline that ends a text, and stands nowhere else in it, is cut off. -/
theorem Text.newline_not_mem_trimEnd {text : List Char} (h : '\n' ∉ text.dropLast) :
    '\n' ∉ Text.trimEnd text := by
  obtain ⟨blanks, htext, -⟩ := Text.exists_trimEnd text
  intro hm
  rcases List.eq_nil_or_concat blanks with rfl | ⟨body, last, rfl⟩
  · have hne : Text.trimEnd text ≠ [] := List.ne_nil_of_mem hm
    have hlast : ¬ Rune.isBlank ((Text.trimEnd text).getLast hne) = true :=
      List.rdropWhile_last_not Rune.isBlank text hne
    rw [List.append_nil] at htext
    rw [← List.dropLast_concat_getLast hne] at hm
    rcases List.mem_append.mp hm with hm | hm
    · refine h ?_
      rw [htext]
      exact hm
    · rw [← List.mem_singleton.mp hm] at hlast
      exact hlast (by decide)
  · refine h ?_
    rw [htext, List.concat_eq_append, ← List.append_assoc, List.dropLast_concat]
    exact List.mem_append_left _ hm

namespace Diagnostic

/-- A line is its leading spaces, what is shown of it, and the blanks behind that. -/
theorem exists_margins (text : List Char) :
    ∃ spaces blanks, text = spaces ++ (codeOf text ++ blanks) ∧ spaces.length = indentOf text ∧
      (∀ r ∈ spaces, r = ' ') ∧ ∀ r ∈ blanks, Rune.isBlank r = true := by
  obtain ⟨blanks, htext, hblanks⟩ := Text.exists_trimEnd (text.dropWhile (· = ' '))
  refine ⟨text.takeWhile (· = ' '), blanks, ?_, rfl, fun r hr => ?_, hblanks⟩
  · unfold codeOf
    rw [← htext, List.takeWhile_append_dropWhile]
  · have hspace := List.mem_takeWhile_imp hr
    exact of_decide_eq_true hspace

/-- A line with a newline at its end is shown without it. -/
theorem newline_not_mem_codeOf {text : List Char} (h : '\n' ∉ text.dropLast) :
    '\n' ∉ codeOf text := by
  refine Text.newline_not_mem_trimEnd fun hm => h ?_
  obtain ⟨spaces, htext⟩ := List.dropWhile_suffix (l := text) (· = ' ')
  have hne : text.dropWhile (· = ' ') ≠ [] := by
    rintro hnil
    rw [hnil] at hm
    cases hm
  rw [← htext, List.dropLast_append_of_ne_nil hne]
  exact List.mem_append_right _ hm

variable {d : Diagnostic} {source : List Char} {line : Line}

/-- A rune of a line that is no blank is behind its leading spaces, and it is shown. -/
theorem shown_of_not_blank {text : List Char} {column : Nat} {r : Char}
    (hr : text[column]? = some r) (hb : Rune.isBlank r = false) :
    indentOf text ≤ column ∧ (codeOf text)[column - indentOf text]? = some r := by
  obtain ⟨spaces, blanks, htext, hlength, hspaces, hblanks⟩ := exists_margins text
  rw [htext] at hr
  have hindent : indentOf text ≤ column := by
    refine Nat.le_of_not_lt fun hlt => ?_
    rw [List.getElem?_append_left (by omega)] at hr
    rw [hspaces r (List.mem_of_getElem? hr)] at hb
    exact absurd hb (by decide)
  refine ⟨hindent, ?_⟩
  rw [List.getElem?_append_right (by omega), hlength] at hr
  by_cases hshown : column - indentOf text < (codeOf text).length
  · rwa [List.getElem?_append_left hshown] at hr
  · rw [List.getElem?_append_right (by omega)] at hr
    rw [hblanks r (List.mem_of_getElem? hr)] at hb
    cases hb

/-! ## Rendered diagnostics -/

/-- The rendered diagnostic ends with the shown part of the line, behind a label, and with a caret
line under it. The caret is as far behind the label as the column is behind the spaces that are not
shown, and if there is a rune at the diagnostic's offset it is the one above the caret. -/
def PointsAt (d : Diagnostic) (source : List Char) (line : Line) : Prop :=
  ∃ above label pointer : List Char,
    (d.render source).toList = above ++ '\n' :: (label ++ codeOf line.text) ++
      '\n' :: (pointer ++ ['^', '\n']) ∧
    '\n' ∉ label ++ codeOf line.text ∧ '\n' ∉ pointer ∧ '^' ∉ pointer ∧
    pointer.length = label.length + (line.column - indentOf line.text) ∧
    ∀ r, source[d.position.offset]? = some r →
      (label ++ codeOf line.text)[pointer.length]? = some r

theorem newline_not_mem_number (n : Nat) : '\n' ∉ (toString n).toList := by
  intro h
  have hdigit : '\n' ∈ Nat.toDigits 10 n := by
    rwa [← Nat.toList_repr]
  exact absurd (Nat.isDigit_of_mem_toDigits (by decide) (by decide) hdigit) (by decide)

/-- The lines that show a diagnostic, from the bar above the line on. -/
theorem toList_excerpt (line : Line) :
    ∃ above label pointer : List Char,
      excerpt line = above ++ '\n' :: (label ++ codeOf line.text) ++
        '\n' :: (pointer ++ ['^', '\n']) ∧
      '\n' ∉ label ∧ '\n' ∉ pointer ∧ '^' ∉ pointer ∧
      pointer.length = label.length + (line.column - indentOf line.text) := by
  have hnumber := newline_not_mem_number line.number
  refine ⟨gutter ((toString line.number).toList.length + 2),
    (toString line.number).toList ++ " | ".toList,
    gutter ((toString line.number).toList.length + 2) ++ [' '] ++
      List.replicate (line.column - indentOf line.text) '-', ?_, ?_, ?_, ?_, ?_⟩
  · unfold excerpt arrow
    simp only [List.append_assoc, List.cons_append, List.nil_append]
  · simpa using hnumber
  · simp [gutter, List.mem_replicate]
  · simp [gutter, List.mem_replicate]
  · simp only [gutter, List.length_append, List.length_replicate, List.length_singleton]
    have hbar : " | ".toList.length = 3 := rfl
    omega

/-- A diagnostic on a line is rendered with the caret under its column, unless there is a blank. -/
theorem pointsAt_of_holds (hline : lineAt source d.position.offset = some line)
    (holds : line.Holds source d.position.offset)
    (visible : ∀ r, source[d.position.offset]? = some r → Rune.isBlank r = false) :
    indentOf line.text ≤ line.column ∧ d.PointsAt source line := by
  obtain ⟨above, label, pointer, hexcerpt, hlabel, hpointer, hcaret, hlength⟩ :=
    toList_excerpt line
  have hrune := holds.getElem?_eq
  rw [hrune] at visible
  have hindent : indentOf line.text ≤ line.column := by
    rcases Nat.lt_or_eq_of_le holds.column_le with hlt | heq
    · have hr := List.getElem?_eq_getElem hlt
      exact (shown_of_not_blank hr (visible _ hr)).1
    · rw [heq]
      exact (List.takeWhile_prefix _).length_le
  refine ⟨hindent, (d.headline ++ "\n-> " ++ d.position.file ++ "\n").toList ++ above, label,
    pointer, ?_, ?_, hpointer, hcaret, hlength, fun r hr => ?_⟩
  · unfold render
    rw [hline, String.toList_append, String.toList_ofList, hexcerpt]
    simp only [List.append_assoc]
  · rw [List.mem_append, not_or]
    exact ⟨hlabel, newline_not_mem_codeOf holds.newline_not_mem⟩
  · rw [hlength, List.getElem?_append_right (Nat.le_add_right _ _), Nat.add_sub_cancel_left]
    rw [hrune] at hr
    exact (shown_of_not_blank hr (visible r hr)).2

end Diagnostic

end ExprYard
