import ExprYard.Proofs.Grammar.Language
import ExprYard.Proofs.Lexer.Enclosed
import ExprYard.Proofs.Lexer.Phrasing
import ExprYard.Proofs.Parser.Backdrop

/-!
# An expression between parentheses

Parentheses around a source that is one expression change nothing but places, and a call of a source
is a call of its tree (`enclosing_transparent`). What is between the parentheses is lexed as it is by
itself, as `reading_enclosed` has it, and a parser comes to the tree that the grammar gives to the
tokens. The tokens stand some places further on; so do those of the source with as many blanks
before it (`tokens_indented`), and that is a source too, with a derivation of its own.
-/

namespace ExprYard

open Lexer

/-! ## Blanks before a source -/

section

variable (n : Nat) (source : List Char) (file : String)

/-- Blanks before a source move what a parser comes to. -/
theorem parseLexer_indented :
    (parseLexer (ofRunes (List.replicate n ' ' ++ source) file)).1.2
      = relocateResult (.forward n) (parseLexer (ofRunes source file)).1.2 := by
  rw [parseLexer_ofRunes, parseLexer_ofRunes, tokens_indented rfl, Intake.conclude_relocate]

end

/-! ## A source that is one expression -/

variable {source : List Char} {file : String} {t : Tree}

/-- A source that comes to one tree, without a semicolon or the word `let`, is one expression. -/
theorem exists_expr (h : (parseLexer (ofRunes source file)).1.2 = .ok [t])
    (plain : Plain (ofRunes source file).tokens.1) :
    ∃ e : Expr, e.tokens = (ofRunes source file).tokens.1 ∧ e.tree = t := by
  obtain ⟨-, ⟨closed, last⟩, htokens⟩ := exists_program_of_ok h
  have htrees := (parseLexer_of_program htokens).symm.trans h
  rw [← htokens] at plain
  obtain ⟨hclosed, hlast⟩ := plain_append.mp plain
  cases closed with
  | cons s closed =>
    exact ((hclosed s.2.1 (by simp)).2 s.2.2).elim
  | nil =>
    cases last with
    | none => cases htrees
    | some s =>
      cases s with
      | expr e =>
        cases htrees
        exact ⟨e, htokens, rfl⟩
      | declaration head e => exact ((hlast head.word.1 List.mem_cons_self).1 head.word.2).elim

/-- As many places further on it is the same expression. -/
theorem exists_expr_forward (h : (parseLexer (ofRunes source file)).1.2 = .ok [t])
    (plain : Plain (ofRunes source file).tokens.1) (n : Nat) :
    ∃ e : Expr, e.tokens = (ofRunes source file).tokens.1.map (Token.relocate (.forward n)) ∧
      e.tree = t.relocate (.forward n) := by
  have hindented : (parseLexer (ofRunes (List.replicate n ' ' ++ source) file)).1.2
      = .ok [t.relocate (.forward n)] := by
    rw [parseLexer_indented, h]
    rfl
  obtain ⟨e, htokens, htree⟩ := exists_expr hindented (by
    rw [tokens_indented rfl]
    exact List.forall_mem_map.mpr plain)
  exact ⟨e, htokens.trans (tokens_indented rfl n source file), htree⟩

/-- A source whose tokens are those of an operand comes to its tree. -/
theorem parseLexer_of_unary {u : Unary} (h : u.tokens = (ofRunes source file).tokens.1) :
    (parseLexer (ofRunes source file)).1.2 = .ok [u.tree] := by
  have hprogram := @parseLexer_of_program source file ⟨[], some (.expr (.unary u))⟩ h
  rw [hprogram]
  show Except.ok [(Infix.single u.tree).tree] = _
  rw [Infix.tree_single]

/-- The parentheses of a source that is one expression match each other. -/
theorem matched_of_single (h : (parseLexer (ofRunes source file)).1.2 = .ok [t])
    (plain : Plain (ofRunes source file).tokens.1) : Matched 0 (ofRunes source file).tokens.1 := by
  obtain ⟨e, htokens, -⟩ := exists_expr h plain
  rw [← htokens]
  exact (e.whole 0).toMatched

/-! ## What opens a parenthesis -/

section

variable {s : Stance} {a : Spot} {w x : List Char}

theorem skip_of_paren (ha : a.rest = '(' :: x) : a.skip = a := by
  apply Spot.skip_of_stops
  intro r hr
  rw [ha] at hr
  cases hr
  decide

theorem skip_of_name (name : IsName w) (ha : a.rest = w ++ x) : a.skip = a := by
  obtain ⟨c, rest, rfl, hc, -⟩ := name
  apply Spot.skip_of_stops
  intro r hr
  rw [ha] at hr
  cases hr
  exact Rune.isBlank_of_startsName hc

/-- A parenthesis where an operand may begin. -/
theorem reads_paren (awaits : s.awaits = true) (ha : a.rest = '(' :: x) :
    s.Reads a [(.openParen, ['('])] ⟨.operand, s.parens + 1, s.outer⟩ := by
  have lexeme : a.Lexeme (s.mode = .letName) .openParen ['('] :=
    .of_ahead (Spot.ahead_of_rest ha) rfl fun _ => trivial
  have hk : Kind.openParen ≠ .keyword .letWord := nofun
  exact .word lexeme ⟨nofun, nofun⟩ (Stance.after_of_awaits awaits hk)
    fun hm => (Stance.not_letName_of_awaits awaits hm).elim

/-- A name and a parenthesis where an operand may begin. -/
theorem reads_call (awaits : s.awaits = true) (name : IsName w)
    (hlet : w ≠ Keyword.letWord.spelling) (ha : a.rest = w ++ '(' :: x) :
    s.Reads a [(.function, w), (.openParen, ['('])] ⟨.operand, 0, s.parens :: s.outer⟩ := by
  have hpast : (a.past w).rest = '(' :: x := Spot.past_of_rest ha
  have ends : Kind.Ends False .function (a.past w).rest := by
    rw [hpast]
    refine ⟨?_, id, rfl⟩
    intro r hr
    cases hr
    decide +kernel
  refine .call awaits ⟨Spot.stands_of_rest ha, name, ends⟩ ⟨nofun, fun _ _ => hlet⟩ ?_
  rw [skip_of_paren hpast]
  exact .of_ahead (Spot.ahead_of_rest hpast) rfl fun _ => trivial

end

/-! ## Parentheses around a source -/

/-- Between what opens a parenthesis and what closes it, a source that is one expression is that
expression, moved. -/
theorem exists_enclosed (before : List Char) {ws : List Word} {p : Nat} {os : List Nat}
    {next : Stance} {a : Spot} (ha : a = .first (before ++ (source ++ [')'])) file)
    (hskip : a.skip = a) (reads : Stance.start.Reads a ws ⟨.operand, p, os⟩)
    (beyond : a.beyond ws = (a.past before).skip)
    (close : (⟨.operand, p, os⟩ : Stance).close = some next)
    (h : (parseLexer (ofRunes source file)).1.2 = .ok [t])
    (plain : Plain (ofRunes source file).tokens.1) :
    ∃ (e : Expr) (u : Token.Is .closeParen), e.tree = t.relocate (.forward before.length) ∧
      a.utter ws ++ (e.tokens ++ [u.1])
        = (ofRunes (before ++ (source ++ [')'])) file).tokens.1 := by
  obtain ⟨e, hexpr, htree⟩ := exists_expr_forward h plain before.length
  have clean := (exists_program_of_ok h).1
  have matched := matched_of_single h plain
  rw [(tokens_eq_reading source file).1] at hexpr clean plain matched
  obtain ⟨u, hu, hread⟩ := reading_enclosed (problem_of_clean clean) plain matched close
  have hpast : a.past before = ((Spot.first source file).more [')']).shift before.length := by
    rw [ha, Spot.past, Spot.first, List.drop_left]
    rfl
  rw [← hskip] at reads
  obtain ⟨c, hphrase, hc⟩ := reads.phrase
  rw [hskip] at hphrase hc
  have hbehind : c.skip = (((Spot.first source file).more [')']).shift before.length).skip := by
    rw [hc, beyond, hpast]
  refine ⟨e, ⟨u.relocate (.forward before.length), hu⟩, htree, ?_⟩
  rw [(tokens_eq_reading _ file).1, ← ha, reading_of_read hphrase, reading_of_skip hbehind,
    reading_shift, hread, hexpr, List.map_append]
  rfl

/-- Parentheses around an expression move it and leave it as it is. -/
theorem parseLexer_parens (h : (parseLexer (ofRunes source file)).1.2 = .ok [t])
    (plain : Plain (ofRunes source file).tokens.1) :
    (parseLexer (ofRunes ('(' :: (source ++ [')'])) file)).1.2 = .ok [t.relocate (.forward 1)] := by
  obtain ⟨e, u, htree, htokens⟩ := exists_enclosed ['('] rfl (skip_of_paren rfl)
    (reads_paren rfl rfl) rfl rfl h plain
  calc (parseLexer (ofRunes ('(' :: (source ++ [')'])) file)).1.2
      = .ok [e.tree] := parseLexer_of_unary
        (u := .group ⟨⟨.openParen, "(", 0, 1, file⟩, rfl⟩ (.list (.one e)) u) htokens
    _ = .ok [t.relocate (.forward 1)] := by
      rw [htree]
      rfl

/-- To call an expression moves it and leaves it as it is. -/
theorem parseLexer_call {w : List Char} (name : IsName w) (hlet : w ≠ Keyword.letWord.spelling)
    (h : (parseLexer (ofRunes source file)).1.2 = .ok [t])
    (plain : Plain (ofRunes source file).tokens.1) :
    (parseLexer (ofRunes (w ++ '(' :: (source ++ [')'])) file)).1.2
      = .ok [.branch ⟨.function, String.ofList w, 0, w.length, file⟩
          [t.relocate (.forward (w.length + 1))]] := by
  generalize ha : Spot.first (w ++ '(' :: (source ++ [')'])) file = a
  have hrest : a.rest = w ++ '(' :: (source ++ [')']) := by
    rw [← ha]
    rfl
  have htoken : a.token .function w = ⟨.function, String.ofList w, 0, w.length, file⟩ := by
    rw [← ha]
    simp only [Spot.token, Spot.first, Nat.zero_add]
  have beyond : a.beyond [(.function, w), (.openParen, ['('])] = (a.past (w ++ ['('])).skip := by
    rw [Spot.beyond, skip_of_paren (Spot.past_of_rest hrest), ← Spot.past_past]
    rfl
  rw [List.append_cons] at ha ⊢
  obtain ⟨e, u, htree, htokens⟩ := exists_enclosed _ ha.symm (skip_of_name name hrest)
    (reads_call rfl name hlet hrest) beyond rfl h plain
  rw [List.length_append] at htree
  calc (parseLexer (ofRunes ((w ++ ['(']) ++ (source ++ [')'])) file)).1.2
      = .ok [.branch (a.token .function w) [e.tree]] := parseLexer_of_unary
        (u := .call ⟨a.token .function w, rfl⟩
          ⟨(a.past w).skip.token .openParen ['('], rfl⟩ (.list (.one e)) u) htokens
    _ = .ok [.branch ⟨.function, String.ofList w, 0, w.length, file⟩
          [t.relocate (.forward (w.length + 1))]] := by
      rw [htoken, htree]
      rfl

/-- Parentheses and calls are transparent. A source that comes to one tree, without a semicolon or
the word `let`, comes to that tree between parentheses too, one rune further on, and behind `f(` and
before a parenthesis to a call of `f` with that tree, two runes further on, as its only child. -/
theorem enclosing_transparent (source : List Char) (file : String) (t : Tree)
    (single : (parseLexer (Lexer.ofRunes source file)).1.2 = .ok [t])
    (plain : ∀ u ∈ (Lexer.ofRunes source file).tokens.1,
      u.kind ≠ .keyword .letWord ∧ u.kind ≠ .keyword .semicolon) :
    (parseLexer (Lexer.ofRunes ('(' :: (source ++ [')'])) file)).1.2
        = .ok [t.relocate (.forward 1)] ∧
      (parseLexer (Lexer.ofRunes ('f' :: '(' :: (source ++ [')'])) file)).1.2
        = .ok [.branch ⟨.function, "f", 0, 1, file⟩ [t.relocate (.forward 2)]] := by
  refine ⟨parseLexer_parens single plain, ?_⟩
  have name : IsName ['f'] := .of_check (by decide +kernel)
  exact parseLexer_call name (by decide) single plain

/-- The source `(a , b)` comes to a tuple, and `f((a , b))` to a call with that tuple. -/
theorem enclosing_transparent_tuple :
    (parseLexer (Lexer.ofRunes ['f', '(', '(', 'a', ' ', ',', ' ', 'b', ')', ')'] "shell")).1.2
      = .ok [.branch ⟨.function, "f", 0, 1, "shell"⟩ [.node ⟨.keyword .comma, ",", 5, 6, "shell"⟩
          [.leaf ⟨.identifier, "a", 3, 4, "shell"⟩, .leaf ⟨.identifier, "b", 7, 8, "shell"⟩] true]] :=
  (enclosing_transparent ['(', 'a', ' ', ',', ' ', 'b', ')'] "shell"
    (.node ⟨.keyword .comma, ",", 3, 4, "shell"⟩
      [.leaf ⟨.identifier, "a", 1, 2, "shell"⟩, .leaf ⟨.identifier, "b", 5, 6, "shell"⟩] true)
    (by decide +kernel) (by decide +kernel)).2

end ExprYard
