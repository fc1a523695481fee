import ExprYard.Proofs.Lexer.Course
import ExprYard.Proofs.Lexer.Spelling
import Mathlib.Data.List.DropRight

/-!
# What a lexer reads next, as a function of the text

A lexer consumes runes one by one, and the states in which it has begun a token are of no interest
to whoever wants to know what it makes of a text. Between tokens it stands at a `Spot` of the source
in a `Stance`, and `phrase` says what it does from there until it stands between tokens again: it
reads one or two tokens, or it meets a problem, or the text is over. Nothing here is a machine: the
words of a phrase are the longest runs of runes that may stand in them.

What there can be is the `Phrase.Account`: every token is a `Spot.Lexeme`, a text of its kind that
stands at its spot and is not longer. What holds of all phrases alike is read off that account.

`reading` goes on from phrase to phrase. That a lexer does the same is proved where lexers are.
-/

namespace ExprYard

/-! ## Spots -/

/-- A place in a source, with the runes behind it. -/
structure Spot where
  offset : Nat
  rest : List Char
  file : String

namespace Spot

/-- The first spot of a source. -/
def first (source : List Char) (file : String) : Spot :=
  ⟨0, source, file⟩

/-- The spot behind the blanks that stand here. -/
def skip (a : Spot) : Spot :=
  ⟨a.offset + (a.rest.takeWhile Rune.isBlank).length, a.rest.dropWhile Rune.isBlank, a.file⟩

/-- The spot behind a word that stands here. -/
def past (a : Spot) (word : List Char) : Spot :=
  ⟨a.offset + word.length, a.rest.drop word.length, a.file⟩

/-- The longest word that starts here and is made of runes that `p` holds of. -/
def run (a : Spot) (p : Char → Bool) : List Char :=
  a.rest.takeWhile p

/-- The next rune. -/
def ahead (a : Spot) : Option Char :=
  a.rest.head?

/-- A word that stands here, as a token. -/
def token (a : Spot) (kind : Kind) (word : List Char) : Token :=
  ⟨kind, String.ofList word, a.offset, a.offset + word.length, a.file⟩

/-- A problem that is found here. -/
def report (a : Spot) (problem : Problem) : Diagnostic :=
  ⟨problem, a.offset, a.file⟩

end Spot

/-! ## Stances -/

/-- What a lexer may expect between tokens. -/
inductive Mode where
  | statementHead
  | letName
  | letType
  | tupleTypeOpen
  | tupleTypeNext
  | letAssign
  | operand
  | afterOperand
deriving DecidableEq

/-- The state in which a lexer expects that. -/
def Mode.state : Mode → State
  | statementHead => .statementHead
  | letName => .letName
  | letType => .letType
  | tupleTypeOpen => .tupleTypeOpen
  | tupleTypeNext => .tupleTypeNext
  | letAssign => .letAssign
  | operand => .operand
  | afterOperand => .afterOperand

/-- What a lexer expects between tokens, and the parentheses that are open. -/
structure Stance where
  mode : Mode
  parens : Nat
  outer : List Nat

namespace Stance

/-- Before the first token of a source. -/
def start : Stance :=
  ⟨.statementHead, 0, []⟩

/-- The same parentheses with something else expected. -/
def goto (s : Stance) (mode : Mode) : Stance :=
  { s with mode }

/-- Whether no parenthesis is open. -/
def isLevel (s : Stance) : Bool :=
  s.parens = 0 && s.outer.isEmpty

/-- The innermost group of the innermost call closes, or where there is none that call itself. -/
def close (s : Stance) : Option Stance :=
  match s.parens, s.outer with
  | parens + 1, outer => some ⟨.afterOperand, parens, outer⟩
  | 0, parens :: outer => some ⟨.afterOperand, parens, outer⟩
  | 0, [] => none

end Stance

/-! ## Phrases -/

/-- What comes next. -/
inductive Phrase where
  /-- Nothing: the text is over. -/
  | ended
  /-- A problem. -/
  | failed (d : Diagnostic)
  /-- Some tokens, and where they lead to. -/
  | read (tokens : List Token) (next : Stance) (behind : Spot)

namespace Spot

/-- A word is read as a token. -/
def reads (a : Spot) (kind : Kind) (word : List Char) (next : Stance) : Phrase :=
  .read [a.token kind word] next (a.past word)

/-- A problem is met. -/
def fails (a : Spot) (problem : Problem) : Phrase :=
  .failed (a.report problem)

/-- The word that stands here. -/
def word (a : Spot) : List Char :=
  a.run Rune.continuesName

end Spot

/-- What has been read of an operator, grown for as long as some operator of the arity begins so. -/
def Operator.longest (arity : Arity) (word : List Char) : List Char → List Char
  | [] => word
  | r :: rest =>
    if Rune.inOperator r && Operator.begins (word ++ [r]) arity then
      longest arity (word ++ [r]) rest
    else word

namespace Stance

variable (s : Stance) (a : Spot)

/-! Each of the following says what comes next at a spot where no blank stands. -/

/-- The name of a declaration, with the colon that announces its type. -/
def letName : Phrase :=
  if a.ahead.any Rune.startsName then
    let b := (a.past a.word).skip
    if b.ahead = some ':' then
      .read [a.token .identifier a.word, b.token (.keyword .typeSeparator) [':']] (s.goto .letType)
        (b.past [':'])
    else .read [a.token .identifier a.word] (s.goto .letAssign) b
  else a.fails (Lexer.unexpected a.ahead "a name after `let`")

/-- A type word. -/
def letType : Phrase :=
  if a.ahead.any Rune.startsName then
    match TypeWord.lookup a.word with
    | .error problem => a.fails problem
    | .ok word =>
      a.reads (.type word) a.word
        (s.goto
          (if word = .tuple then .tupleTypeOpen
          else if 0 < s.parens then .tupleTypeNext
          else .letAssign))
  else a.fails (Lexer.unexpected a.ahead "a type")

/-- The parenthesis before element types. -/
def tupleTypeOpen : Phrase :=
  if a.ahead = some '(' then a.reads .openParen ['('] ⟨.letType, s.parens + 1, s.outer⟩
  else a.fails (Lexer.unexpected a.ahead "the element types of a tuple")

/-- What follows an element type. -/
def tupleTypeNext : Phrase :=
  if a.ahead = some ')' then
    a.reads .closeParen [')']
      ⟨if 0 < s.parens - 1 then .tupleTypeNext else .letAssign, s.parens - 1, s.outer⟩
  else if a.ahead = some ',' then a.reads (.keyword .comma) [','] (s.goto .letType)
  else a.fails (Lexer.unexpected a.ahead "a tuple type")

/-- The end of the head of a declaration. -/
def letAssign : Phrase :=
  if a.ahead = some '=' then a.reads (.keyword .assign) ['='] (s.goto .operand)
  else a.fails (Lexer.unexpected a.ahead "a `let` declaration")

/-- A name, with the parenthesis that calls it. -/
def name : Phrase :=
  let b := (a.past a.word).skip
  if b.ahead = some '(' then
    .read [a.token .function a.word, b.token .openParen ['(']]
      ⟨.operand, 0, s.parens :: s.outer⟩ (b.past ['('])
  else .read [a.token .identifier a.word] (s.goto .afterOperand) b

/-- A number whose whole part and point are known. -/
def fraction (whole : List Char) : Phrase :=
  let b := a.past (whole ++ ['.'])
  let digits := b.run Rune.inNumber
  if (b.past digits).ahead = some 'e' ∧ digits ≠ [] then
    let exponent := (b.past (digits ++ ['e'])).run Rune.inNumber
    if exponent ≠ [] then
      a.reads .float (whole ++ '.' :: (digits ++ 'e' :: exponent)) (s.goto .afterOperand)
    else a.fails (.malformedFloat (String.ofList (whole ++ '.' :: (digits ++ ['e']))))
  else a.fails (.malformedFloat (String.ofList (whole ++ '.' :: digits)))

/-- A number. -/
def number : Phrase :=
  let whole := a.run Rune.inNumber
  if (a.past whole).ahead = some '.' then s.fraction a whole
  else a.reads .integer whole (s.goto .afterOperand)

/-- A literal between quotes, the first of which stands here. -/
def quoted (quote : Char) (body : Char → Bool) (kind : Kind) : Phrase :=
  let inner := (a.past [quote]).run body
  if (a.past (quote :: inner)).ahead = some quote then
    a.reads kind (quote :: (inner ++ [quote])) (s.goto .afterOperand)
  else a.fails (.unterminatedLiteral (String.ofList (quote :: inner)))

/-- An operator. -/
def operator (arity : Arity) : Phrase :=
  if a.ahead.any Rune.inOperator then
    match Operator.lookup (Operator.longest arity [] a.rest) arity with
    | .ok op => a.reads (.operator op) (Operator.longest arity [] a.rest) (s.goto .operand)
    | .error problem => a.fails problem
  else a.fails (Lexer.unexpected a.ahead "an operator position")

/-- A closing parenthesis of an expression. -/
def closing : Phrase :=
  match s.close with
  | some next => a.reads .closeParen [')'] next
  | none => a.fails .extraneousParenthesis

/-- An operand, or the end of a group that is empty. -/
def operand : Phrase :=
  match a.ahead with
  | none => .ended
  | some r =>
    if r = '(' then a.reads .openParen ['('] ⟨.operand, s.parens + 1, s.outer⟩
    else if r = ')' then s.closing a
    else if Rune.startsName r then s.name a
    else if Rune.isDigit r then s.number a
    else if r = '"' then s.quoted a '"' Rune.inString .string
    else if r = '\'' then s.quoted a '\'' Rune.inChar .char
    else if Operator.begins [r] .unary then s.operator a .unary
    else a.fails (.unexpectedRune r "an expression")

/-- What follows an operand. -/
def afterOperand : Phrase :=
  match a.ahead with
  | none => .ended
  | some r =>
    if r = ')' then s.closing a
    else if r = ',' then
      if s.isLevel then a.fails .misplacedComma
      else a.reads (.keyword .comma) [','] (s.goto .operand)
    else if r = ';' then
      if s.isLevel then a.reads (.keyword .semicolon) [';'] (s.goto .statementHead)
      else a.fails .unbalancedStatement
    else s.operator a .binary

/-- The word `let` starts a declaration, and all else an expression. -/
def statementHead : Phrase :=
  if a.word = Keyword.letWord.spelling then a.reads (.keyword .letWord) a.word (s.goto .letName)
  else s.operand a

end Stance

/-- What comes next at a spot, blanks aside. -/
def phrase (s : Stance) (a : Spot) : Phrase :=
  match s.mode with
  | .statementHead => s.statementHead a.skip
  | .letName => s.letName a.skip
  | .letType => s.letType a.skip
  | .tupleTypeOpen => s.tupleTypeOpen a.skip
  | .tupleTypeNext => s.tupleTypeNext a.skip
  | .letAssign => s.letAssign a.skip
  | .operand => s.operand a.skip
  | .afterOperand => s.afterOperand a.skip

/-! ## Words that stand at a spot -/

/-- What begins an operator is made of operator runes. -/
theorem Operator.inOperator_of_begins {w : List Char} {r : Char} {arity : Arity}
    (h : Operator.begins (w ++ [r]) arity = true) : Rune.inOperator r = true := by
  obtain ⟨op, -, tail, htail⟩ := Operator.begins_iff.mp h
  refine Rune.inOperator_iff.mpr ⟨op, ?_⟩
  rw [← htail]
  simp

namespace Spot

/-- A word stands at a spot. -/
def Stands (a : Spot) (word : List Char) : Prop :=
  a.rest = word ++ (a.past word).rest

variable {a : Spot} {v w : List Char} {r : Char}

theorem stands_of_rest {tail : List Char} (h : a.rest = w ++ tail) : a.Stands w := by
  unfold Stands past
  rw [h, List.drop_left]

theorem past_past (a : Spot) (v w : List Char) : (a.past v).past w = a.past (v ++ w) := by
  simp [past, Nat.add_assoc]

theorem Stands.append (h : a.Stands v) (g : (a.past v).Stands w) : a.Stands (v ++ w) := by
  unfold Stands at g
  rw [past_past] at g
  unfold Stands
  rw [List.append_assoc, ← g]
  exact h

theorem stands_run (a : Spot) (p : Char → Bool) : a.Stands (a.run p) :=
  stands_of_rest List.takeWhile_append_dropWhile.symm

theorem stands_of_ahead (h : a.ahead = some r) : a.Stands [r] := by
  obtain ⟨tail, hr⟩ := List.head?_eq_some_iff.mp h
  exact stands_of_rest hr

theorem Stands.ahead (h : a.Stands (r :: w)) : a.ahead = some r := by
  rw [Spot.ahead, h]
  rfl

theorem Stands.length (h : a.Stands w) : a.rest.length = w.length + (a.past w).rest.length := by
  rw [h, List.length_append]

theorem rest_past_run (a : Spot) (p : Char → Bool) :
    (a.past (a.run p)).rest = a.rest.dropWhile p :=
  List.append_cancel_left ((stands_run a p).symm.trans List.takeWhile_append_dropWhile.symm)

/-- Behind a run stands none of its runes. -/
theorem run_past_run (a : Spot) (p : Char → Bool) : (a.past (a.run p)).run p = [] := by
  rw [run, rest_past_run, Lexer.takeWhile_dropWhile]

/-- A run stops where none of its runes comes next. -/
theorem stops_run (a : Spot) (p : Char → Bool) : Stops p (a.past (a.run p)).rest := by
  intro r hr
  rw [rest_past_run] at hr
  have hnot := List.head?_dropWhile_not p a.rest
  rw [show (a.rest.dropWhile p).head? = some r from hr] at hnot
  exact hnot

/-- A run over a word ends with it where it is followed by another rune. -/
theorem run_of_rest {p : Char → Bool} {x : List Char} (h : a.rest = w ++ x)
    (hw : ∀ r ∈ w, p r = true) (hx : Stops p x) : a.run p = w := by
  rw [run, h, List.takeWhile_append_of_pos hw, hx.takeWhile, List.append_nil]

theorem past_of_rest {x : List Char} (h : a.rest = w ++ x) : (a.past w).rest = x := by
  rw [past, h, List.drop_left]

theorem ahead_of_rest {x : List Char} (h : a.rest = r :: x) : a.ahead = some r := by
  rw [ahead, h]
  rfl

theorem skip_eq_past (a : Spot) : a.skip = a.past (a.run Rune.isBlank) := by
  rw [skip, ← rest_past_run]
  rfl

/-- Behind blanks stands no blank. -/
theorem stops_skip (a : Spot) : Stops Rune.isBlank a.skip.rest := by
  rw [skip_eq_past]
  exact a.stops_run Rune.isBlank

theorem skip_of_stops (h : Stops Rune.isBlank a.rest) : a.skip = a := by
  rw [skip, h.takeWhile, h.dropWhile]
  rfl

theorem skip_skip (a : Spot) : a.skip.skip = a.skip :=
  skip_of_stops a.stops_skip

theorem length_skip_le (a : Spot) : a.skip.rest.length ≤ a.rest.length :=
  (List.dropWhile_suffix Rune.isBlank).length_le

/-- The spot `b` is `a` or comes behind it. -/
def Leads (a b : Spot) : Prop :=
  ∃ w, a.Stands w ∧ b = a.past w

theorem Stands.leads (h : a.Stands w) : a.Leads (a.past w) :=
  ⟨w, h, rfl⟩

theorem Leads.refl (a : Spot) : a.Leads a :=
  ⟨[], rfl, rfl⟩

theorem leads_skip (a : Spot) : a.Leads a.skip := by
  rw [skip_eq_past]
  exact (stands_run a Rune.isBlank).leads

theorem Leads.trans {b c : Spot} (h : a.Leads b) (g : b.Leads c) : a.Leads c := by
  obtain ⟨v, hv, rfl⟩ := h
  obtain ⟨w, hw, rfl⟩ := g
  exact ⟨v ++ w, hv.append hw, past_past a v w⟩

/-- All spots of a text count from the same place to the same end. -/
theorem Leads.finish {b : Spot} (h : a.Leads b) :
    b.offset + b.rest.length = a.offset + a.rest.length ∧ b.file = a.file := by
  obtain ⟨w, hw, rfl⟩ := h
  have hlen := hw.length
  refine ⟨?_, rfl⟩
  show a.offset + w.length + _ = _
  omega

/-- The runes behind a spot of a source are those of the source from there on. -/
theorem Leads.rest_eq_drop {source : List Char} {file : String}
    (h : (first source file).Leads a) : a.rest = source.drop a.offset := by
  obtain ⟨v, -, rfl⟩ := h
  show source.drop v.length = source.drop (0 + v.length)
  rw [Nat.zero_add]

/-- A run is a first rune and more of them. -/
theorem run_eq_cons {p : Char → Bool} (h : a.ahead = some r) (hp : p r = true) :
    ∃ rest, a.run p = r :: rest ∧ ∀ c ∈ rest, p c = true := by
  obtain ⟨tail, hr⟩ := List.head?_eq_some_iff.mp h
  refine ⟨tail.takeWhile p, ?_, fun c hc => List.mem_takeWhile_imp hc⟩
  rw [run, hr, List.takeWhile_cons_of_pos hp]

theorem run_ne_nil {p : Char → Bool} (h : a.ahead = some r) (hp : p r = true) : a.run p ≠ [] := by
  obtain ⟨rest, hrun, -⟩ := run_eq_cons h hp
  rw [hrun]
  exact List.cons_ne_nil r rest

theorem word_ne_nil (h : a.ahead.any Rune.startsName = true) : a.word ≠ [] := by
  obtain ⟨r, hr, hs⟩ := (Option.any_eq_true Rune.startsName a.ahead).mp h
  exact run_ne_nil hr (Rune.continuesName_of_startsName hs)

theorem isName_word (h : a.ahead = some r) (hs : Rune.startsName r = true) :
    Lexer.IsName a.word := by
  obtain ⟨rest, hword, hrest⟩ := run_eq_cons h (Rune.continuesName_of_startsName hs)
  exact ⟨r, rest, hword, hs, hrest⟩

theorem isNumber_run (h : a.ahead = some r) (hd : Rune.isDigit r = true) :
    IsNumber (a.run Rune.inNumber) := by
  obtain ⟨rest, hrun, hrest⟩ := run_eq_cons h (Rune.inNumber_of_isDigit hd)
  exact ⟨r, rest, hrun, hd, hrest⟩

theorem isDigits_run (h : a.run Rune.inNumber ≠ []) : IsDigits (a.run Rune.inNumber) :=
  ⟨h, fun _ hc => List.mem_takeWhile_imp hc⟩

/-- Where the word `let` is, its first rune stands. -/
theorem ahead_of_word_let (h : a.word = Keyword.letWord.spelling) : a.ahead = some 'l' := by
  have hstands := a.stands_run Rune.continuesName
  rw [show a.run Rune.continuesName = _ from h] at hstands
  exact hstands.ahead

/-- An operator grows up to where another rune would not begin one. -/
theorem longest_eq (arity : Arity) (w runes : List Char) :
    ∃ v tail, runes = v ++ tail ∧ Operator.longest arity w runes = w ++ v ∧
      ∀ r ∈ tail.head?, Operator.begins (w ++ v ++ [r]) arity = false := by
  induction runes generalizing w with
  | nil => exact ⟨[], [], rfl, (List.append_nil w).symm, fun r hr => by cases hr⟩
  | cons r runes ih =>
    unfold Operator.longest
    split
    · obtain ⟨v, tail, hruns, hv, htail⟩ := ih (w ++ [r])
      rw [List.append_assoc] at hv htail
      exact ⟨r :: v, tail, congrArg (r :: ·) hruns, hv, htail⟩
    · rename_i hr
      refine ⟨[], r :: runes, rfl, (List.append_nil w).symm, fun c hc => ?_⟩
      cases hc
      rw [List.append_nil]
      refine Bool.eq_false_iff.mpr fun hbegins => hr ?_
      exact (Bool.and_eq_true ..).mpr ⟨Operator.inOperator_of_begins hbegins, hbegins⟩

theorem stands_longest (a : Spot) (arity : Arity) :
    a.Stands (Operator.longest arity [] a.rest) := by
  obtain ⟨v, tail, hrest, hv, -⟩ := longest_eq arity [] a.rest
  rw [hv, List.nil_append]
  exact stands_of_rest hrest

theorem ends_longest (a : Spot) (arity : Arity) :
    ∀ r ∈ (a.past (Operator.longest arity [] a.rest)).ahead,
      Operator.begins (Operator.longest arity [] a.rest ++ [r]) arity = false := by
  obtain ⟨v, tail, hrest, hv, htail⟩ := longest_eq arity [] a.rest
  rw [List.nil_append] at hv htail
  rw [hv, ahead, past, hrest, List.drop_left]
  exact htail

end Spot

/-- No operator is written with no runes. -/
theorem Operator.ne_nil_of_lookup {word : List Char} {arity : Arity} {op : Operator}
    (h : Operator.lookup word arity = .ok op) : word ≠ [] := by
  rw [← (Operator.lookup_eq_ok_iff.mp h).1]
  cases op <;> exact List.cons_ne_nil _ _

/-! ## The account of a phrase -/

/-- At the spot a whole text of a kind stands. -/
structure Spot.Lexeme (a : Spot) (declared : Prop) (kind : Kind) (w : List Char) : Prop where
  stands : a.Stands w
  spells : kind.Spells w
  ends : kind.Ends declared (a.past w).rest

namespace Spot.Lexeme

variable {a : Spot} {declared : Prop} {kind : Kind} {w : List Char} {r : Char}

theorem ne_nil (h : a.Lexeme declared kind w) : w ≠ [] := by
  obtain ⟨r, rest, rfl, -⟩ := h.spells.begins
  exact List.cons_ne_nil r rest

theorem congr {declared' : Prop} (h : a.Lexeme declared kind w) (hd : declared ↔ declared') :
    a.Lexeme declared' kind w :=
  propext hd ▸ h

theorem head?_eq (h : a.Lexeme declared kind w) : w.head? = a.ahead := by
  obtain ⟨r, rest, rfl, -⟩ := h.spells.begins
  exact h.stands.ahead.symm

theorem spelt (h : a.Lexeme declared kind w) : (a.token kind w).Spelt := by
  show kind.Spells (String.ofList w).toList
  rw [String.toList_ofList]
  exact h.spells

/-- A name is all of the word at its spot. -/
theorem word_eq (h : a.Lexeme declared kind w) (hk : kind.isWord = true) : a.word = w :=
  Spot.run_of_rest h.stands (h.spells.isName hk).all (h.ends.stops hk)

/-- A mark of one rune. -/
theorem of_ahead (h : a.ahead = some r) (spells : kind.Spells [r])
    (ends : ∀ x, kind.Ends declared x) : a.Lexeme declared kind [r] :=
  ⟨Spot.stands_of_ahead h, spells, ends _⟩

end Spot.Lexeme

/-- What there can be in a stance at a spot where no blank stands. A name is declared behind the
word `let`, and only behind that. -/
inductive Phrase.Account (s : Stance) (a : Spot) : Phrase → Prop where
  | ended (h : a.rest = []) : Account s a .ended
  | failed (problem : Problem) : Account s a (a.fails problem)
  | word {kind : Kind} {w : List Char} {next : Stance} (hw : a.Lexeme (s.mode = .letName) kind w)
      (hnext : next.mode = .letName ↔ kind = .keyword .letWord) :
      Account s a (a.reads kind w next)
  /-- A word may be read with the blanks behind it. -/
  | spaced {kind : Kind} {w : List Char} {next : Stance}
      (hw : a.Lexeme (s.mode = .letName) kind w)
      (hnext : next.mode = .letName ↔ kind = .keyword .letWord) :
      Account s a (.read [a.token kind w] next (a.past w).skip)
  | pair {k l : Kind} {v w : List Char} {next : Stance} (hv : a.Lexeme (s.mode = .letName) k v)
      (hk : k ≠ .keyword .letWord) (hw : (a.past v).skip.Lexeme False l w)
      (hnext : next.mode = .letName ↔ l = .keyword .letWord) :
      Account s a (.read [a.token k v, (a.past v).skip.token l w] next ((a.past v).skip.past w))

namespace Stance

variable {s : Stance} {a : Spot}

/-- An operand that begins like a name is one. -/
theorem operand_of_startsName {r : Char} (h : a.ahead = some r) (hs : Rune.startsName r = true) :
    s.operand a = s.name a := by
  have hopen : r ≠ '(' := by
    rintro rfl
    exact absurd hs (by decide +kernel)
  have hclose : r ≠ ')' := by
    rintro rfl
    exact absurd hs (by decide +kernel)
  unfold operand
  rw [h]
  dsimp only
  rw [if_neg hopen, if_neg hclose, if_pos hs]

theorem account_letName (hm : s.mode = .letName) : (s.letName a).Account s a := by
  unfold letName
  split
  · rename_i hs
    obtain ⟨r, hr, hs⟩ := (Option.any_eq_true Rune.startsName a.ahead).mp hs
    have hname : a.Lexeme (s.mode = .letName) .identifier a.word :=
      ⟨a.stands_run _, Spot.isName_word hr hs, a.stops_run _, fun hnot => (hnot hm).elim⟩
    dsimp only
    split
    · rename_i hc
      exact .pair hname nofun (.of_ahead hc rfl fun _ => trivial) ⟨nofun, nofun⟩
    · exact .spaced hname ⟨nofun, nofun⟩
  · exact .failed _

theorem account_letType : (s.letType a).Account s a := by
  unfold letType
  split
  · split
    · exact .failed _
    · rename_i word hlookup
      refine .word ⟨a.stands_run _, (TypeWord.lookup_eq_ok_iff.mp hlookup).symm, a.stops_run _⟩ ?_
      refine iff_of_false ?_ (by simp)
      show (if word = .tuple then Mode.tupleTypeOpen
        else if 0 < s.parens then .tupleTypeNext else .letAssign) ≠ .letName
      split
      · decide
      · split <;> decide
  · exact .failed _

theorem account_tupleTypeOpen : (s.tupleTypeOpen a).Account s a := by
  unfold tupleTypeOpen
  split
  · rename_i h
    exact .word (.of_ahead h rfl fun _ => trivial) ⟨nofun, nofun⟩
  · exact .failed _

theorem account_tupleTypeNext : (s.tupleTypeNext a).Account s a := by
  unfold tupleTypeNext
  split
  · rename_i h
    refine .word (.of_ahead h rfl fun _ => trivial) (iff_of_false ?_ (by decide))
    show (if 0 < s.parens - 1 then Mode.tupleTypeNext else .letAssign) ≠ .letName
    split <;> decide
  split
  · rename_i h
    exact .word (.of_ahead h rfl fun _ => trivial) ⟨nofun, nofun⟩
  · exact .failed _

theorem account_letAssign : (s.letAssign a).Account s a := by
  unfold letAssign
  split
  · rename_i h
    exact .word (.of_ahead h rfl fun _ => trivial) ⟨nofun, nofun⟩
  · exact .failed _

theorem account_name (hm : s.mode ≠ .letName) {r : Char} (h : a.ahead = some r)
    (hs : Rune.startsName r = true) : (s.name a).Account s a := by
  unfold name
  dsimp only
  split
  · rename_i hc
    exact .pair ⟨a.stands_run _, Spot.isName_word h hs, a.stops_run _, hm, hc⟩ nofun
      (.of_ahead hc rfl fun _ => trivial) ⟨nofun, nofun⟩
  · rename_i hc
    exact .spaced ⟨a.stands_run _, Spot.isName_word h hs, a.stops_run _, fun _ => hc⟩
      ⟨nofun, nofun⟩

theorem stands_float {whole : List Char} (h : a.Stands (whole ++ ['.']))
    (he : ((a.past (whole ++ ['.'])).past ((a.past (whole ++ ['.'])).run Rune.inNumber)).ahead
      = some 'e') :
    a.Stands (whole ++ '.' :: ((a.past (whole ++ ['.'])).run Rune.inNumber ++ 'e' ::
      ((a.past (whole ++ ['.'])).past
        ((a.past (whole ++ ['.'])).run Rune.inNumber ++ ['e'])).run Rune.inNumber)) := by
  have hd := (Spot.stands_run (a.past (whole ++ ['.'])) Rune.inNumber).append
    (Spot.stands_of_ahead he)
  have hall := (h.append hd).append (Spot.stands_run _ Rune.inNumber)
  simpa [Spot.past_past] using hall

theorem account_fraction {whole : List Char} (h : a.Stands (whole ++ ['.']))
    (hn : IsNumber whole) : (s.fraction a whole).Account s a := by
  unfold fraction
  dsimp only
  split
  · rename_i he
    split
    · rename_i hexponent
      refine .word ⟨stands_float h he.1, ⟨whole, _, _, rfl, hn, Spot.isDigits_run he.2,
        Spot.isDigits_run hexponent⟩, ?_⟩ ⟨nofun, nofun⟩
      have hstops := Spot.stops_run ((a.past (whole ++ ['.'])).past
        ((a.past (whole ++ ['.'])).run Rune.inNumber ++ ['e'])) Rune.inNumber
      show Stops _ _
      simpa [Spot.past_past] using hstops
    · exact .failed _
  · exact .failed _

theorem account_number {r : Char} (h : a.ahead = some r) (hd : Rune.isDigit r = true) :
    (s.number a).Account s a := by
  have hn := Spot.isNumber_run h hd
  unfold number
  dsimp only
  split
  · rename_i hp
    exact account_fraction ((a.stands_run _).append (Spot.stands_of_ahead hp)) hn
  · rename_i hp
    exact .word ⟨a.stands_run _, hn, a.stops_run _, hp⟩ ⟨nofun, nofun⟩

theorem account_quoted {quote : Char} {body : Char → Bool} {kind : Kind}
    (h : a.ahead = some quote) (hk : kind = .string ∨ kind = .char)
    (spells : ∀ inner, (∀ c ∈ inner, body c = true) → kind.Spells (quote :: (inner ++ [quote]))) :
    (s.quoted a quote body kind).Account s a := by
  unfold quoted
  dsimp only
  split
  · rename_i hq
    have hb := (Spot.stands_of_ahead h).append ((a.past [quote]).stands_run body)
    refine .word ⟨hb.append (Spot.stands_of_ahead hq),
      spells _ fun c hc => List.mem_takeWhile_imp hc, ?_⟩ (iff_of_false nofun ?_)
    · rcases hk with rfl | rfl <;> trivial
    · rcases hk with rfl | rfl <;> decide
  · exact .failed _

theorem account_operator {arity : Arity} : (s.operator a arity).Account s a := by
  unfold operator
  split
  · split
    · rename_i op ho
      obtain ⟨hspelling, harity⟩ := Operator.lookup_eq_ok_iff.mp ho
      refine .word ⟨a.stands_longest arity, hspelling.symm, ?_⟩ ⟨nofun, nofun⟩
      have hends := a.ends_longest arity
      rw [← hspelling, ← harity] at hends
      rw [← hspelling]
      exact hends
    · exact .failed _
  · exact .failed _

theorem mode_of_close {next : Stance} (h : s.close = some next) : next.mode = .afterOperand := by
  unfold close at h
  split at h <;> cases h <;> rfl

theorem account_closing (h : a.ahead = some ')') : (s.closing a).Account s a := by
  unfold closing
  split
  · rename_i next hc
    refine .word (.of_ahead h rfl fun _ => trivial) ?_
    rw [mode_of_close hc]
    decide
  · exact .failed _

theorem account_operand (hm : s.mode ≠ .letName) : (s.operand a).Account s a := by
  unfold operand
  split
  · rename_i h
    exact .ended (List.head?_eq_none_iff.mp h)
  rename_i r h
  split
  · rename_i hr
    exact .word (.of_ahead (hr ▸ h) rfl fun _ => trivial) ⟨nofun, nofun⟩
  split
  · rename_i hr
    exact account_closing (hr ▸ h)
  split
  · rename_i hr
    exact account_name hm h hr
  split
  · rename_i hr
    exact account_number h hr
  split
  · rename_i hr
    exact account_quoted (hr ▸ h) (.inl rfl) fun inner hinner => ⟨inner, rfl, hinner⟩
  split
  · rename_i hr
    exact account_quoted (hr ▸ h) (.inr rfl) fun inner hinner => ⟨inner, rfl, hinner⟩
  split
  · exact account_operator
  · exact .failed _

theorem account_afterOperand : (s.afterOperand a).Account s a := by
  unfold afterOperand
  split
  · rename_i h
    exact .ended (List.head?_eq_none_iff.mp h)
  rename_i r h
  split
  · rename_i hr
    exact account_closing (hr ▸ h)
  split
  · rename_i hr
    split
    · exact .failed _
    · exact .word (.of_ahead (hr ▸ h) rfl fun _ => trivial) ⟨nofun, nofun⟩
  split
  · rename_i hr
    split
    · exact .word (.of_ahead (hr ▸ h) rfl fun _ => trivial) ⟨nofun, nofun⟩
    · exact .failed _
  · exact account_operator

theorem account_statementHead (hm : s.mode ≠ .letName) : (s.statementHead a).Account s a := by
  unfold statementHead
  split
  · rename_i hw
    exact .word ⟨a.stands_run _, hw, a.stops_run _⟩ (iff_of_true rfl rfl)
  · exact account_operand hm

end Stance

/-- The account of what comes next, behind the blanks. -/
theorem account_phrase (s : Stance) (a : Spot) : (phrase s a).Account s a.skip := by
  unfold phrase
  split
  · rename_i hm
    exact Stance.account_statementHead (by rw [hm]; decide)
  · rename_i hm
    exact Stance.account_letName hm
  · exact Stance.account_letType
  · exact Stance.account_tupleTypeOpen
  · exact Stance.account_tupleTypeNext
  · exact Stance.account_letAssign
  · rename_i hm
    exact Stance.account_operand (by rw [hm]; decide)
  · exact Stance.account_afterOperand

section

variable {s next : Stance} {a b : Spot} {ts : List Token}

/-- What is read leads on in the text. -/
theorem Phrase.Account.leads (h : (Phrase.read ts next b).Account s a) : a.Leads b := by
  cases h with
  | word hw => exact hw.stands.leads
  | spaced hw => exact hw.stands.leads.trans (Spot.leads_skip _)
  | pair hv _ hw => exact (hv.stands.leads.trans (Spot.leads_skip _)).trans hw.stands.leads

/-- Where something is read, something stands. -/
theorem Phrase.Account.rest_ne_nil (h : (Phrase.read ts next b).Account s a) : a.rest ≠ [] := by
  have hne : ∀ {kind w}, a.Lexeme (s.mode = .letName) kind w → a.rest ≠ [] := by
    intro kind w hw hr
    have hrest := hw.stands
    rw [Spot.Stands, hr] at hrest
    exact hw.ne_nil (List.append_eq_nil_iff.mp hrest.symm).1
  cases h with
  | word hw => exact hne hw
  | spaced hw => exact hne hw
  | pair hv => exact hne hv

theorem leads_of_phrase (h : phrase s a = .read ts next b) : a.Leads b := by
  have account := account_phrase s a
  rw [h] at account
  exact a.leads_skip.trans account.leads

theorem rest_ne_nil_of_phrase (h : phrase s a = .read ts next b) : a.skip.rest ≠ [] := by
  have account := account_phrase s a
  rw [h] at account
  exact account.rest_ne_nil

theorem rest_of_ended (h : phrase s a = .ended) : a.skip.rest = [] := by
  have account := account_phrase s a
  rw [h] at account
  cases account with
  | ended h => exact h

end

/-! ## Reading -/

/-- Whatever is read shortens what is left. -/
theorem Phrase.Account.length_lt {a b : Spot} {ts : List Token} {s next : Stance}
    (h : (Phrase.read ts next b).Account s a) : b.rest.length < a.rest.length := by
  cases h with
  | word hw =>
    have := hw.stands.length
    have := List.length_pos_iff.mpr hw.ne_nil
    omega
  | @spaced _ w _ hw =>
    have := hw.stands.length
    have := (a.past w).length_skip_le
    have := List.length_pos_iff.mpr hw.ne_nil
    omega
  | @pair _ _ v _ _ hv _ hw =>
    have := hv.stands.length
    have := hw.stands.length
    have := (a.past v).length_skip_le
    have := List.length_pos_iff.mpr hv.ne_nil
    omega

theorem length_lt_of_phrase {s next : Stance} {a b : Spot} {ts : List Token}
    (h : phrase s a = .read ts next b) : b.rest.length < a.rest.length := by
  have account := account_phrase s a
  rw [h] at account
  exact Nat.lt_of_lt_of_le account.length_lt a.length_skip_le

/-- All tokens from a spot on, and the problem that ends them if one does. -/
def reading (s : Stance) (a : Spot) : List Token × Option Diagnostic :=
  match _h : phrase s a with
  | .ended => ([], none)
  | .failed d => ([Lexer.report d], some d)
  | .read ts next b =>
    let (us, problem) := reading next b
    (ts ++ us, problem)
termination_by a.rest.length
decreasing_by exact length_lt_of_phrase _h

section

variable {s next : Stance} {a b : Spot} {ts : List Token} {d : Diagnostic}

theorem reading_of_ended (h : phrase s a = .ended) : reading s a = ([], none) := by
  rw [reading]
  split
  · rfl
  · rename_i hp
    rw [h] at hp
    cases hp
  · rename_i hp
    rw [h] at hp
    cases hp

theorem reading_of_failed (h : phrase s a = .failed d) :
    reading s a = ([Lexer.report d], some d) := by
  rw [reading]
  split
  · rename_i hp
    rw [h] at hp
    cases hp
  · rename_i hp
    rw [h] at hp
    cases hp
    rfl
  · rename_i hp
    rw [h] at hp
    cases hp

theorem reading_of_read (h : phrase s a = .read ts next b) :
    reading s a = (ts ++ (reading next b).1, (reading next b).2) := by
  rw [reading]
  split
  · rename_i hp
    rw [h] at hp
    cases hp
  · rename_i hp
    rw [h] at hp
    cases hp
  · rename_i hp
    rw [h] at hp
    cases hp
    rfl

/-- What holds of the tokens of every phrase, and of every report, holds of all tokens. -/
theorem forall_mem_reading {P : Token → Prop} (report : ∀ d, P (Lexer.report d))
    (read : ∀ {s next : Stance} {a b : Spot} {ts : List Token}, phrase s a = .read ts next b →
      ∀ t ∈ ts, P t) (s : Stance) (a : Spot) : ∀ t ∈ (reading s a).1, P t := by
  cases hp : phrase s a with
  | ended =>
    rw [reading_of_ended hp]
    exact List.forall_mem_nil P
  | failed d =>
    rw [reading_of_failed hp]
    exact List.forall_mem_singleton.mpr (report d)
  | read ts next b =>
    rw [reading_of_read hp]
    have hlt := length_lt_of_phrase hp
    exact List.forall_mem_append.mpr ⟨read hp, forall_mem_reading report read next b⟩
termination_by a.rest.length

/-- What holds of the problem of every phrase holds of the problem that ends all tokens. -/
theorem of_problem_reading {P : Diagnostic → Prop}
    (failed : ∀ {s : Stance} {a : Spot} {d : Diagnostic}, phrase s a = .failed d → P d)
    (s : Stance) (a : Spot) (d : Diagnostic) (h : (reading s a).2 = some d) : P d := by
  cases hp : phrase s a with
  | ended =>
    rw [reading_of_ended hp] at h
    cases h
  | failed e =>
    rw [reading_of_failed hp] at h
    cases h
    exact failed hp
  | read ts next b =>
    rw [reading_of_read hp] at h
    have hlt := length_lt_of_phrase hp
    exact of_problem_reading failed next b d h
termination_by a.rest.length

/-- The report of a problem is among the tokens that are read. -/
theorem report_mem_reading (s : Stance) (a : Spot) (d : Diagnostic)
    (h : (reading s a).2 = some d) : Lexer.report d ∈ (reading s a).1 := by
  cases hp : phrase s a with
  | ended =>
    rw [reading_of_ended hp] at h
    cases h
  | failed e =>
    rw [reading_of_failed hp] at h ⊢
    cases h
    exact List.mem_singleton_self _
  | read ts next b =>
    rw [reading_of_read hp] at h ⊢
    have hlt := length_lt_of_phrase hp
    exact List.mem_append_right _ (report_mem_reading next b d h)
termination_by a.rest.length

/-- Where no report is among the tokens there is no problem. -/
theorem problem_of_clean {s : Stance} {a : Spot} (h : ∀ t ∈ (reading s a).1, t.kind ≠ .error) :
    (reading s a).2 = none := by
  refine Option.eq_none_iff_forall_ne_some.mpr fun d hd => ?_
  exact h _ (report_mem_reading s a d hd) rfl

/-- What is read is a matter of the phrase that comes next. -/
theorem reading_of_phrase {s' : Stance} {a' : Spot} (h : phrase s a = phrase s' a') :
    reading s a = reading s' a' := by
  cases hp : phrase s a with
  | ended => rw [reading_of_ended hp, reading_of_ended (h.symm.trans hp)]
  | failed d => rw [reading_of_failed hp, reading_of_failed (h.symm.trans hp)]
  | read ts next b => rw [reading_of_read hp, reading_of_read (h.symm.trans hp)]

end

end ExprYard
