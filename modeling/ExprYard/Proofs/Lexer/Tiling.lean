import ExprYard.Proofs.Lexer.Course

/-!
# Tokens tile the source

Every token lies on the runes that its span names and has their text, the tokens stand in order
without overlap, and whatever is before, between and behind them is blank. `tokens_tile` says so of
all tokens of every source. If the lexer gives up, its report stands behind the last token; if it
does not, the tokens cover the source to its end, where the token of the end of input is put.
-/

namespace ExprYard

/-- The token has the text of the runes that its span names, and there are some. -/
structure Token.LiesOn (source : List Char) (file : String) (t : Token) : Prop where
  file : t.span.file = file
  nonempty : t.span.start < t.span.stop
  within : t.span.stop ≤ source.length
  text : t.text.toList = (source.drop t.span.start).take (t.span.stop - t.span.start)

/-- From offset `i` up to offset `j` there are blanks only. -/
structure BlankBetween (source : List Char) (i j : Nat) : Prop where
  ordered : i ≤ j
  within : j ≤ source.length
  blank : ∀ r ∈ (source.drop i).take (j - i), Rune.isBlank r = true

/-- Where the last of some tokens stops, and `offset` where there are none. -/
def lastStop (offset : Nat) : List Token → Nat
  | [] => offset
  | t :: ts => lastStop t.span.stop ts

/-- A piece of a list, found by the lengths of what is before it and of itself. -/
theorem take_drop_piece {lead piece tail : List Char} :
    ((lead ++ (piece ++ tail)).drop lead.length).take piece.length = piece := by
  rw [List.drop_left, List.take_left]

/-- A place in a list with one more entry is the last place or one before it. -/
theorem split_concat {α : Type} {as pre post : List α} {x a : α}
    (h : as ++ [x] = pre ++ a :: post) :
    (post = [] ∧ pre = as ∧ a = x) ∨ ∃ rest, post = rest ++ [x] ∧ as = pre ++ a :: rest := by
  rcases List.eq_nil_or_concat post with rfl | ⟨rest, y, rfl⟩
  · obtain ⟨rfl, ha⟩ := List.append_inj' h rfl
    cases ha
    exact .inl ⟨rfl, rfl, rfl⟩
  · rw [List.concat_eq_append, ← List.cons_append, ← List.append_assoc] at h
    obtain ⟨rfl, hx⟩ := List.append_inj' h rfl
    cases hx
    exact .inr ⟨rest, List.concat_eq_append, rfl⟩

theorem BlankBetween.of_gap {lead gap tail : List Char}
    (blank : ∀ r ∈ gap, Rune.isBlank r = true) :
    BlankBetween (lead ++ (gap ++ tail)) lead.length (lead.length + gap.length) where
  ordered := Nat.le_add_right _ _
  within := by
    simp only [List.length_append]
    omega
  blank := by
    rw [Nat.add_sub_cancel_left, take_drop_piece]
    exact blank

namespace Tiles

variable {file : String} {offset : Nat} {runes : List Char} {ts : List Token}

/-- Each token of a tiling lies on its runes. -/
theorem liesOn (h : Tiles file offset runes ts) :
    ∀ (lead tail : List Char), lead.length = offset →
      ∀ t ∈ ts, t.LiesOn (lead ++ (runes ++ tail)) file := by
  induction h with
  | blanks =>
    intro lead tail hlead t ht
    cases ht
  | @token offset gap word rest t ts blank nonempty text span tiles ih =>
    rintro lead tail rfl u hu
    have hword := List.length_pos_iff.mpr nonempty
    rcases List.mem_cons.mp hu with rfl | hu
    · have hlen : lead.length + gap.length = (lead ++ gap).length := List.length_append.symm
      have split : lead ++ (gap ++ (word ++ rest) ++ tail)
          = (lead ++ gap) ++ (word ++ (rest ++ tail)) := by simp
      rw [split]
      refine ⟨by rw [span], by rw [span]; exact Nat.lt_add_of_pos_right hword, ?_, ?_⟩
      · rw [span]
        simp only [List.length_append]
        omega
      · rw [text, span, String.toList_ofList]
        dsimp only
        rw [Nat.add_sub_cancel_left, hlen, take_drop_piece]
    · have split : lead ++ (gap ++ (word ++ rest) ++ tail)
          = (lead ++ gap ++ word) ++ (rest ++ tail) := by simp
      rw [split]
      exact ih (lead ++ gap ++ word) tail (by simp [Nat.add_assoc]) u hu

/-- Between the tokens before a token of a tiling and that token there are blanks only. -/
theorem blank_before (h : Tiles file offset runes ts) :
    ∀ (lead tail : List Char), lead.length = offset →
      ∀ (pre : List Token) (t : Token) (post : List Token), ts = pre ++ t :: post →
        BlankBetween (lead ++ (runes ++ tail)) (lastStop offset pre) t.span.start := by
  induction h with
  | blanks =>
    intro lead tail hlead pre t post heq
    cases pre <;> cases heq
  | @token offset gap word rest t ts blank nonempty text span tiles ih =>
    rintro lead tail rfl pre u post heq
    cases pre with
    | nil =>
      cases heq
      have split : lead ++ (gap ++ (word ++ rest) ++ tail)
          = lead ++ (gap ++ (word ++ rest ++ tail)) := by simp
      rw [split, span]
      exact .of_gap blank
    | cons v pre =>
      cases heq
      have split : lead ++ (gap ++ (word ++ rest) ++ tail)
          = (lead ++ gap ++ word) ++ (rest ++ tail) := by simp
      rw [split]
      have hb := ih (lead ++ gap ++ word) tail (by simp [Nat.add_assoc]) pre u post rfl
      show BlankBetween _ (lastStop t.span.stop pre) _
      rw [span]
      exact hb

/-- Behind the tokens of a tiling there are blanks only. -/
theorem blank_after (h : Tiles file offset runes ts) :
    ∀ (lead tail : List Char), lead.length = offset →
      BlankBetween (lead ++ (runes ++ tail)) (lastStop offset ts) (offset + runes.length) := by
  induction h with
  | blanks blank =>
    rintro lead tail rfl
    exact .of_gap blank
  | @token offset gap word rest t ts blank nonempty text span tiles ih =>
    rintro lead tail rfl
    have split : lead ++ (gap ++ (word ++ rest) ++ tail)
        = (lead ++ gap ++ word) ++ (rest ++ tail) := by simp
    have hb := ih (lead ++ gap ++ word) tail (by simp [Nat.add_assoc])
    have hlen : lead.length + (gap ++ (word ++ rest)).length
        = lead.length + gap.length + word.length + rest.length := by
      simp only [List.length_append]
      omega
    rw [split, hlen]
    show BlankBetween _ (lastStop t.span.stop ts) _
    rw [span]
    exact hb

end Tiles

namespace Lexer

variable {source : List Char} {file : String} {l m : Lexer} {ts : List Token}

theorem taken_of_unspent (h : l.unspent = []) : l.taken = [] := by
  have hl := (List.append_eq_nil_iff.mp h).1
  simpa [lexeme] using hl

/-- The tokens that have been finished tile the runes that are spent. -/
theorem Covers.tiles (h : Covers (ofRunes source file) ts m) :
    m.file = file ∧ ∃ w, source = w ++ m.unspent ∧ m.offset = w.length ∧ Tiles file 0 w ts := by
  obtain ⟨w, hw, ho, ht⟩ := h.spent
  exact ⟨h.file, w, hw, ho.trans (Nat.zero_add _), ht⟩

/-- A lexer that has come to the end of a source stands at its end. -/
theorem Covers.position_of_spent (h : Covers (ofRunes source file) ts m) (spent : m.unspent = []) :
    m.position = ⟨source.length, file⟩ := by
  obtain ⟨hfile, w, hw, ho, -⟩ := h.tiles
  rw [spent, List.append_nil] at hw
  rw [offset_of_nil (taken_of_unspent spent), ← hw] at ho
  rw [position, ho, hfile]

/-! ## All tokens of a source -/

variable (source file) in
/-- The tokens of a source tile it. -/
structure Tiling (ts : List Token) : Prop where
  /-- Each token but the report of a problem lies on runes of the source and has their text. -/
  liesOn : ∀ t ∈ ts, t.kind ≠ .error → t.LiesOn source file
  /-- Between one token and the next, and before the first, there are blanks only. -/
  blank_before : ∀ pre t post, ts = pre ++ t :: post →
    BlankBetween source (lastStop 0 pre) t.span.start
  /-- The report of a problem is the last token, and it is what the lexer gave up with. -/
  report_last : ∀ pre t post, ts = pre ++ t :: post → t.kind = .error →
    post = [] ∧ ∃ d, t = report d ∧ tokenize source file = .error d
  /-- Without a report there are only blanks behind the last token, and the input ends where the
  source does. -/
  blank_after : (∀ t ∈ ts, t.kind ≠ .error) →
    BlankBetween source (lastStop 0 ts) source.length ∧
    tokenize source file = .ok (ts ++ [Token.endOfInput ⟨source.length, file⟩])

/-- A lexer that has come to the end of a source has tiled all of it. -/
theorem tiling_of_spent (covers : Covers (ofRunes source file) ts m)
    (clean : ∀ t ∈ ts, t.kind ≠ .error) (spent : m.unspent = []) (error : m.error = none)
    (tokens : (ofRunes source file).tokens = (ts, m.halt.emptied)) : Tiling source file ts := by
  have position := covers.position_of_spent spent
  obtain ⟨-, w, hw, -, tiles⟩ := covers.tiles
  rw [spent, List.append_nil] at hw
  subst hw
  have hlies := tiles.liesOn [] [] rfl
  have hbefore := tiles.blank_before [] [] rfl
  have hafter := tiles.blank_after [] [] rfl
  rw [List.nil_append, List.append_nil] at hlies hbefore hafter
  rw [Nat.zero_add] at hafter
  refine ⟨fun t ht _ => hlies t ht, hbefore, ?_, fun _ => ⟨hafter, ?_⟩⟩
  · rintro pre t post rfl he
    exact (clean t (by simp) he).elim
  · unfold tokenize
    rw [tokens]
    have herror : m.halt.emptied.error = none := error
    have hposition : m.halt.emptied.position = ⟨source.length, file⟩ := position
    dsimp only
    rw [herror, hposition]

/-- A lexer that gives up has tiled the source up to where it does. -/
theorem tiling_of_failed {problem : Problem} (covers : Covers (ofRunes source file) ts m)
    (clean : ∀ t ∈ ts, t.kind ≠ .error)
    (tokens : (ofRunes source file).tokens
      = (ts ++ [report ⟨problem, ⟨m.offset, m.file⟩⟩], (m.fail problem).emptied)) :
    Tiling source file (ts ++ [report ⟨problem, ⟨m.offset, m.file⟩⟩]) := by
  obtain ⟨-, w, hw, ho, tiles⟩ := covers.tiles
  have hlies := tiles.liesOn [] m.unspent rfl
  have hbefore := tiles.blank_before [] m.unspent rfl
  have hafter := tiles.blank_after [] m.unspent rfl
  rw [List.nil_append, ← hw] at hlies hbefore hafter
  rw [Nat.zero_add, ← ho] at hafter
  refine ⟨?_, ?_, ?_, ?_⟩
  · intro t ht hne
    rcases List.mem_append.mp ht with ht | ht
    · exact hlies t ht
    · rw [List.mem_singleton.mp ht] at hne
      exact (hne rfl).elim
  · intro pre t post heq
    rcases split_concat heq with ⟨rfl, rfl, rfl⟩ | ⟨rest, rfl, hts⟩
    · exact hafter
    · exact hbefore pre t rest hts
  · intro pre t post heq he
    rcases split_concat heq with ⟨rfl, rfl, rfl⟩ | ⟨rest, rfl, hts⟩
    · refine ⟨rfl, _, rfl, ?_⟩
      unfold tokenize
      rw [tokens]
      rfl
    · exact (clean t (by simp [hts]) he).elim
  · intro h
    exact (h (report ⟨problem, ⟨m.offset, m.file⟩⟩) (by simp) rfl).elim

end Lexer

/-- The tokens of a source tile it. Each token but the report of a problem lies on runes of the
source and has their text, and between one and the next, and before the first, there are blanks
only. If the lexer gives up, its report is the last token and stands behind the others; if not,
there are only blanks behind the last token, and the input ends where the source does. -/
theorem tokens_tile (source : List Char) (file : String) :
    Lexer.Tiling source file (Lexer.ofRunes source file).tokens.1 := by
  obtain ⟨ts, state, m, n, work, quiet, hts⟩ := Lexer.tokens_cases source file
  have covers : Lexer.Covers (Lexer.ofRunes source file) ts n := by
    simpa using work.covers.trans quiet.covers
  have clean : ∀ t ∈ ts, t.kind ≠ .error := fun t ht =>
    Kind.ne_error_of_isSpoken (work.turns.isSpoken t ht)
  rcases hts with ⟨-, spent, hts⟩ | ⟨problem, hts⟩
  · rw [hts]
    exact Lexer.tiling_of_spent covers clean spent (quiet.error.trans work.error) hts
  · rw [hts]
    exact Lexer.tiling_of_failed covers clean hts

end ExprYard
