import ExprYard.Rune.Blank

/-!
# Cutting text

Where texts are cut: after each mark, such as the newline that ends a line, and before the blanks at
their end.
-/

namespace ExprYard.Text

/-- The pieces of a list that end with `mark`, and a last piece without it where the list does not
end with it. An empty list has no pieces. -/
def splitAfter {α : Type} [DecidableEq α] (mark : α) : List α → List (List α)
  | [] => []
  | a :: rest =>
    if a = mark then [a] :: splitAfter mark rest
    else match splitAfter mark rest with
      | [] => [[a]]
      | piece :: pieces => (a :: piece) :: pieces

/-- Joined, the pieces of a list are the list. -/
theorem flatten_splitAfter {α : Type} [DecidableEq α] (mark : α) (as : List α) :
    (splitAfter mark as).flatten = as := by
  induction as with
  | nil => rfl
  | cons a rest ih =>
    simp only [splitAfter]
    split
    · simp [ih]
    · split
      · rename_i h
        rw [h] at ih
        simp [← ih]
      · rename_i h
        rw [h] at ih
        simp [← ih]

/-- A text without the blanks at its end. -/
def trimEnd (text : List Char) : List Char :=
  (text.reverse.dropWhile Rune.isBlank).reverse

end ExprYard.Text
