import ExprYard.Proofs.Lexer.Turns

/-!
# How tokens are spelled

`Kind.Spells` says which texts a token of a kind may have. The kinds of the parser's own have none.
A text of a kind begins with a rune that is no blank, and only an open parenthesis begins with `(`.
`Kind.Ends` says what may stand behind such a text where it is a whole one.

Numbers and names share some runes: there are letters, such as the Roman numerals, that are also
numbers. So a text can be both a name and a number.
-/

namespace ExprYard

/-! ## Runes -/

namespace Rune

/-- The code points of the blanks. -/
def blankCodes : List Nat :=
  blank.ranges.flatMap fun r => List.range' r.1 (r.2 + 1 - r.1)

theorem mem_blankCodes {r : Char} (h : isBlank r = true) : r.toNat ∈ blankCodes := by
  obtain ⟨range, hmem, hlow, hhigh⟩ := (blank.covers_iff r.toNat).mp h
  refine List.mem_flatMap.mpr ⟨range, hmem, List.mem_range'_1.mpr ⟨hlow, ?_⟩⟩
  omega

/-- Blanks are neither letters nor numbers. -/
theorem blankCodes_apart : ∀ n ∈ blankCodes,
    alphabetic.covers n = false ∧ numeric.covers n = false := by
  decide +kernel

/-- No blank stands in a name. -/
theorem continuesName_of_isBlank {r : Char} (h : isBlank r = true) : continuesName r = false := by
  obtain ⟨halphabetic, hnumeric⟩ := blankCodes_apart _ (mem_blankCodes h)
  unfold continuesName isAlphabetic isNumeric
  rw [halphabetic, hnumeric, Bool.false_or, Bool.false_or, decide_eq_false_iff_not]
  rintro rfl
  revert h
  decide

/-- No blank stands in a number. -/
theorem inNumber_of_isBlank {r : Char} (h : isBlank r = true) : inNumber r = false := by
  refine Bool.eq_false_iff.mpr fun hr => ?_
  have hname := continuesName_of_isBlank h
  rw [continuesName_of_inNumber hr] at hname
  cases hname

/-- No blank stands in an operator. -/
theorem inOperator_of_isBlank {r : Char} (h : isBlank r = true) : inOperator r = false := by
  have hall : operatorRunes.all (fun r => !isBlank r) = true := by decide +kernel
  refine Bool.eq_false_iff.mpr fun hr => ?_
  have hblank := List.all_eq_true.mp hall r (List.contains_iff_mem.mp hr)
  rw [h] at hblank
  cases hblank

theorem isBlank_of_startsName {r : Char} (h : startsName r = true) : isBlank r = false := by
  refine Bool.eq_false_iff.mpr fun hb => ?_
  have hname := continuesName_of_isBlank hb
  rw [continuesName_of_startsName h] at hname
  cases hname

theorem isBlank_of_isDigit {r : Char} (h : isDigit r = true) : isBlank r = false := by
  refine Bool.eq_false_iff.mpr fun hb => ?_
  have hnumber := inNumber_of_isBlank hb
  rw [inNumber_of_isDigit h] at hnumber
  cases hnumber

end Rune

/-! ## Texts -/

/-- A number without a point: a rune that starts one, and runes that go on with it. -/
def IsNumber (runes : List Char) : Prop :=
  ∃ r rest, runes = r :: rest ∧ Rune.isDigit r = true ∧ ∀ c ∈ rest, Rune.inNumber c = true

theorem Lexer.IsName.of_check {r : Char} {rest : List Char}
    (h : (Rune.startsName r && rest.all Rune.continuesName) = true) : IsName (r :: rest) := by
  obtain ⟨hr, hrest⟩ := (Bool.and_eq_true ..).mp h
  exact ⟨r, rest, rfl, hr, List.all_eq_true.mp hrest⟩

theorem IsNumber.of_check {r : Char} {rest : List Char}
    (h : (Rune.isDigit r && rest.all Rune.inNumber) = true) : IsNumber (r :: rest) := by
  obtain ⟨hr, hrest⟩ := (Bool.and_eq_true ..).mp h
  exact ⟨r, rest, rfl, hr, List.all_eq_true.mp hrest⟩

theorem Lexer.IsName.all {w : List Char} (h : IsName w) :
    ∀ r ∈ w, Rune.continuesName r = true := by
  obtain ⟨r, rest, rfl, hr, hrest⟩ := h
  intro c hc
  rcases List.mem_cons.mp hc with rfl | hc
  · exact Rune.continuesName_of_startsName hr
  · exact hrest c hc

theorem IsNumber.all {w : List Char} (h : IsNumber w) : ∀ r ∈ w, Rune.inNumber r = true := by
  obtain ⟨r, rest, rfl, hr, hrest⟩ := h
  intro c hc
  rcases List.mem_cons.mp hc with rfl | hc
  · exact Rune.inNumber_of_isDigit hr
  · exact hrest c hc

/-- Runes that go on with a number, at least one of them. -/
def IsDigits (runes : List Char) : Prop :=
  runes ≠ [] ∧ ∀ c ∈ runes, Rune.inNumber c = true

/-- The texts that a token of a kind may have. -/
def Kind.Spells : Kind → List Char → Prop
  | eof, _ | error, _ | invalid, _ | emptyTuple, _ => False
  | openParen, w => w = ['(']
  | closeParen, w => w = [')']
  | identifier, w | function, w => Lexer.IsName w
  | string, w => ∃ body, w = '"' :: (body ++ ['"']) ∧ ∀ c ∈ body, Rune.inString c = true
  | char, w => ∃ body, w = '\'' :: (body ++ ['\'']) ∧ ∀ c ∈ body, Rune.inChar c = true
  | integer, w => IsNumber w
  | float, w => ∃ whole digits exponent, w = whole ++ '.' :: (digits ++ 'e' :: exponent) ∧
      IsNumber whole ∧ IsDigits digits ∧ IsDigits exponent
  | operator op, w => w = op.spelling
  | keyword word, w => w = word.spelling
  | type word, w => w = word.spelling

/-- A token has a text of its kind. -/
def Token.Spelt (t : Token) : Prop :=
  t.kind.Spells t.text.toList

theorem Token.Spelt.of_kind {t : Token} {kind : Kind} (h : t.Spelt) (hk : t.kind = kind) :
    kind.Spells t.text.toList :=
  hk ▸ h

/-- A number does not begin like a name. -/
def Token.Unlettered (t : Token) : Prop :=
  t.kind = .integer ∨ t.kind = .float → t.text.toList.head?.any Rune.startsName = false

/-- A rune that a text of a kind may begin with. -/
def Kind.Begins (kind : Kind) (r : Char) : Prop :=
  match kind with
  | identifier | function => Rune.startsName r = true
  | integer | float => Rune.isDigit r = true
  | eof | error | invalid | emptyTuple => False
  | openParen => r = '('
  | closeParen => r = ')'
  | string => r = '"'
  | char => r = '\''
  | operator op => r ∈ op.spelling.head?
  | keyword word => r ∈ word.spelling.head?
  | type word => r ∈ word.spelling.head?

namespace Kind

variable {kind : Kind} {w : List Char} {r : Char}

theorem Spells.begins (h : kind.Spells w) : ∃ r rest, w = r :: rest ∧ kind.Begins r := by
  cases kind with
  | eof | error | invalid | emptyTuple => exact h.elim
  | openParen | closeParen => exact ⟨_, [], h, rfl⟩
  | identifier | function =>
    obtain ⟨r, rest, hw, hr, -⟩ := h
    exact ⟨r, rest, hw, hr⟩
  | string | char =>
    obtain ⟨body, hw, -⟩ := h
    exact ⟨_, _, hw, rfl⟩
  | integer =>
    obtain ⟨r, rest, hw, hr, -⟩ := h
    exact ⟨r, rest, hw, hr⟩
  | float =>
    obtain ⟨-, digits, exponent, rfl, ⟨r, rest, rfl, hr, -⟩, -⟩ := h
    exact ⟨r, _, rfl, hr⟩
  | operator op => cases op <;> exact ⟨_, _, h, rfl⟩
  | keyword word => cases word <;> exact ⟨_, _, h, rfl⟩
  | type word => cases word <;> exact ⟨_, _, h, rfl⟩

theorem Begins.not_blank (h : kind.Begins r) : Rune.isBlank r = false := by
  cases kind with
  | eof | error | invalid | emptyTuple => exact h.elim
  | identifier | function => exact Rune.isBlank_of_startsName h
  | integer | float => exact Rune.isBlank_of_isDigit h
  | openParen | closeParen | string | char =>
    rw [show r = _ from h]
    decide
  | operator op => cases op <;> cases h <;> decide
  | keyword word => cases word <;> cases h <;> decide
  | type word => cases word <;> cases h <;> decide

/-- Only an open parenthesis begins with one. -/
theorem Begins.ne_open (h : kind.Begins r) (hk : kind ≠ .openParen) : r ≠ '(' := by
  rintro rfl
  cases kind with
  | eof | error | invalid | emptyTuple => exact h.elim
  | openParen => exact hk rfl
  | identifier | function =>
    exact absurd (show Rune.startsName '(' = true from h) (by decide +kernel)
  | integer | float => exact absurd (show Rune.isDigit '(' = true from h) (by decide +kernel)
  | closeParen => exact absurd (show '(' = ')' from h) (by decide)
  | string => exact absurd (show '(' = '"' from h) (by decide)
  | char => exact absurd (show '(' = '\'' from h) (by decide)
  | operator op => cases op <;> cases h
  | keyword word => cases word <;> cases h
  | type word => cases word <;> cases h

end Kind

/-! ## Words -/

/-- Whether the texts of a kind are names, which they are for the word `let` and for types too. -/
def Kind.isWord : Kind → Bool
  | identifier | function | keyword .letWord | type _ => true
  | _ => false

theorem Keyword.isName_letWord : Lexer.IsName Keyword.letWord.spelling :=
  Lexer.IsName.of_check (by decide +kernel)

theorem TypeWord.isName_spelling (word : TypeWord) : Lexer.IsName word.spelling := by
  cases word <;> exact Lexer.IsName.of_check (by decide +kernel)

theorem Kind.Spells.isName {kind : Kind} {w : List Char} (h : kind.Spells w)
    (hk : kind.isWord = true) : Lexer.IsName w := by
  cases kind with
  | identifier | function => exact h
  | type word =>
    rw [show w = word.spelling from h]
    exact word.isName_spelling
  | keyword word =>
    cases word with
    | letWord =>
      rw [show w = Keyword.letWord.spelling from h]
      exact Keyword.isName_letWord
    | typeSeparator | assign | comma | semicolon => cases hk
  | eof | error | invalid | emptyTuple | openParen | closeParen | string | char | integer | float
  | operator op => cases hk

/-- Only a name has an `l` first, as the word `let` does. -/
theorem Kind.Begins.ne_ell {kind : Kind} {r : Char} (h : kind.Begins r)
    (hk : kind.isWord = false) : r ≠ 'l' := by
  rintro rfl
  cases kind with
  | eof | error | invalid | emptyTuple => exact h.elim
  | openParen | closeParen | string | char => exact absurd h (by simp [Begins])
  | integer | float => exact absurd (show Rune.isDigit 'l' = true from h) (by decide +kernel)
  | operator op => cases op <;> cases h
  | keyword word =>
    cases word with
    | letWord => cases hk
    | typeSeparator | assign | comma | semicolon => cases h
  | identifier | function | type word => cases hk

/-! ## Where a text ends -/

/-- What stands here does not begin with a rune that `p` holds of. -/
def Stops (p : Char → Bool) (behind : List Char) : Prop :=
  ∀ r ∈ behind.head?, p r = false

theorem Stops.takeWhile {p : Char → Bool} {x : List Char} (h : Stops p x) :
    x.takeWhile p = [] := by
  cases x with
  | nil => rfl
  | cons r x => rw [List.takeWhile_cons_of_neg (by rw [h r rfl]; decide)]

theorem Stops.dropWhile {p : Char → Bool} {x : List Char} (h : Stops p x) :
    x.dropWhile p = x := by
  cases x with
  | nil => rfl
  | cons r x => rw [List.dropWhile_cons_of_neg (by rw [h r rfl]; decide)]

/-- An open parenthesis stands here, blanks aside. -/
def Opens (behind : List Char) : Prop :=
  (behind.dropWhile Rune.isBlank).head? = some '('

/-- What may stand behind a whole text of a kind. A word and a number end where no rune goes on with
them, and an integer has no point behind it either; an operator ends where no rune makes it the
beginning of another one with as many operands. A name is a call if a parenthesis opens behind it,
unless it is `declared`. Marks and literals end by themselves. -/
def Kind.Ends (declared : Prop) : Kind → List Char → Prop
  | identifier, x => Stops Rune.continuesName x ∧ (¬ declared → ¬ Opens x)
  | function, x => Stops Rune.continuesName x ∧ ¬ declared ∧ Opens x
  | keyword .letWord, x | type _, x => Stops Rune.continuesName x
  | integer, x => Stops Rune.inNumber x ∧ x.head? ≠ some '.'
  | float, x => Stops Rune.inNumber x
  | operator op, x => ∀ r ∈ x.head?, Operator.begins (op.spelling ++ [r]) op.arity = false
  | _, _ => True

namespace Kind.Ends

variable {declared : Prop} {kind : Kind} {x : List Char}

/-- No word is longer than its token. -/
theorem stops (h : kind.Ends declared x) (hk : kind.isWord = true) :
    Stops Rune.continuesName x := by
  cases kind with
  | identifier => exact h.1
  | function => exact h.1
  | type word => exact h
  | keyword word =>
    cases word with
    | letWord => exact h
    | typeSeparator | assign | comma | semicolon => cases hk
  | eof | error | invalid | emptyTuple | openParen | closeParen | string | char | integer | float
  | operator op => cases hk

/-- A name is a call exactly if a parenthesis opens behind it and it is not declared. -/
theorem called (h : kind.Ends declared x) (hk : kind = .identifier ∨ kind = .function) :
    kind = .function ↔ ¬ declared ∧ Opens x := by
  rcases hk with rfl | rfl
  · exact iff_of_false (by decide) fun ⟨hnot, hopens⟩ => h.2 hnot hopens
  · exact iff_of_true rfl h.2

end Kind.Ends

end ExprYard
