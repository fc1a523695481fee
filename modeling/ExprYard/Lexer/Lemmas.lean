import ExprYard.Lexer.Basic

/-!
# What the moves of a lexer do

Each move of a lexer, said of the runes that remain, of the token being built, and of the rune in
sight. A run splits the remaining runes where its test first fails: what comes before goes into the
token being built, and what comes after remains, with its first rune in sight.
-/

namespace ExprYard

namespace Lexer

theorem taken_of_take {l m : Lexer} {r : Char} (h : l.take = (some r, m)) :
    m.taken = r :: l.taken := by
  simp only [take] at h
  split at h
  · cases h
  · cases h
    rfl

theorem of_take_none {l m : Lexer} (h : l.take = (none, m)) :
    l.cursor.remaining = [] ∧ m.cursor.remaining = [] ∧ m.taken = l.taken ∧ m.ahead = none := by
  simp only [take] at h
  split at h
  · rename_i c hr
    cases h
    have hn := Cursor.remaining_of_read_none hr
    refine ⟨hn.1, ?_, rfl, Cursor.slot_of_read hr⟩
    have hc : c.remaining = l.cursor.remaining := by rw [hn.2]; rfl
    rw [hc, hn.1]
  · cases h

/-- Giving back the rune that was just consumed undoes it, but for the look at it. -/
theorem of_take_giveBack {l m : Lexer} {r : Char} (h : l.take = (some r, m)) :
    m.giveBack.cursor.remaining = l.cursor.remaining ∧ m.giveBack.taken = l.taken ∧
      m.giveBack.ahead = some r := by
  simp only [take] at h
  split at h
  · cases h
  · rename_i s c hr
    cases h
    exact ⟨Cursor.remaining_unread_of_read hr, rfl, rfl⟩

theorem remaining_takeRun (p : Char → Bool) (l : Lexer) :
    (l.takeRun p).cursor.remaining = l.cursor.remaining.dropWhile p := by
  fun_induction takeRun p l with
  | case1 l m h => rw [(of_take_none h).1, (of_take_none h).2.1]; rfl
  | case2 l r m h hp ih => rw [ih, remaining_of_take h, List.dropWhile_cons_of_pos hp]
  | case3 l r m h hp =>
    rw [(of_take_giveBack h).1, remaining_of_take h, List.dropWhile_cons_of_neg hp]

theorem lexeme_takeRun (p : Char → Bool) (l : Lexer) :
    (l.takeRun p).lexeme = l.lexeme ++ l.cursor.remaining.takeWhile p := by
  fun_induction takeRun p l with
  | case1 l m h => simp [lexeme, (of_take_none h).1, (of_take_none h).2.2.1]
  | case2 l r m h hp ih =>
    rw [ih, remaining_of_take h, List.takeWhile_cons_of_pos hp]
    simp [lexeme, taken_of_take h]
  | case3 l r m h hp =>
    rw [remaining_of_take h, List.takeWhile_cons_of_neg hp]
    simp [lexeme, (of_take_giveBack h).2.1]

theorem ahead_takeRun (p : Char → Bool) (l : Lexer) :
    (l.takeRun p).ahead = (l.cursor.remaining.dropWhile p).head? := by
  fun_induction takeRun p l with
  | case1 l m h => rw [(of_take_none h).1, (of_take_none h).2.2.2]; rfl
  | case2 l r m h hp ih => rw [ih, remaining_of_take h, List.dropWhile_cons_of_pos hp]
  | case3 l r m h hp =>
    rw [(of_take_giveBack h).2.2, remaining_of_take h, List.dropWhile_cons_of_neg hp,
      List.head?_cons]

theorem remaining_skipBlanks (l : Lexer) :
    l.skipBlanks.cursor.remaining = l.cursor.remaining.dropWhile Rune.isBlank :=
  Cursor.remaining_skipWhile Rune.isBlank l.cursor

theorem ahead_skipBlanks (l : Lexer) :
    l.skipBlanks.ahead = (l.cursor.remaining.dropWhile Rune.isBlank).head? :=
  Cursor.slot_skipWhile Rune.isBlank l.cursor

theorem remaining_peek (l : Lexer) : l.peek.cursor.remaining = l.cursor.remaining :=
  Cursor.remaining_peek l.cursor

theorem ahead_peek (l : Lexer) : l.peek.ahead = l.cursor.remaining.head? :=
  Cursor.slot_peek l.cursor

end Lexer

end ExprYard
