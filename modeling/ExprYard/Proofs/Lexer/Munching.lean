import ExprYard.Proofs.Lexer.Phrasing

/-!
# Operators are munched

A lexer that comes to an operator consumes runes for as long as some operator of the arity begins
with all of them, and gives back no more than the one that was too many. So it comes to the longest
word that stands there and begins an operator (`Operator.isBegun_longest`), and it does not try a
shorter one.

That this word is the longest operator that stands there, if any does, is a matter of all operators:
they are written with one rune or with two, so what begins with an operator and begins another one
is an operator (`Operator.exists_spelling`). Where none of the arity stands, the word is none.

**The law** (`operators_munched`) says so of any lexer between tokens, whatever its cursor has yet
to hand out, and of every run that comes to an operator. In a run there are only two words that
begin an operator and are none: an operator of one operand is looked for only where one stands
(`Operator.spelling_of_begins_unary`), and of the others only `==` and `!=` have a first rune that
is no operator of two operands itself (`Operator.half_of_lookup`).
-/

namespace ExprYard

namespace Operator

variable {arity : Arity} {op : Operator} {w runes : List Char} {r : Char}

/-! ## The table -/

/-- Operators are written with one rune or with two. -/
theorem length_spelling (op : Operator) : 0 < op.spelling.length ∧ op.spelling.length ≤ 2 := by
  cases op <;> decide

/-- There is no word between an operator and another one that begins with it. -/
theorem exists_spelling (hw : begins w arity = true) (ha : op.arity = arity)
    (h : op.spelling <+: w) : ∃ other : Operator, other.spelling = w ∧ other.arity = arity := by
  obtain ⟨grown, hgrown, hbegun⟩ := begins_iff.mp hw
  by_cases hle : w.length ≤ op.spelling.length
  · exact ⟨op, h.eq_of_length_le hle, ha⟩
  · have hone := op.length_spelling
    have htwo := grown.length_spelling
    exact ⟨grown, (hbegun.eq_of_length_le (by omega)).symm, hgrown⟩

/-- Where an operator stands, one of its runes comes next. -/
theorem inOperator_of_stands (h : op.spelling <+: runes) :
    runes.head?.any Rune.inOperator = true := by
  obtain ⟨r, rest, hr⟩ := List.exists_cons_of_length_pos op.length_spelling.1
  obtain ⟨tail, rfl⟩ := h
  rw [hr]
  exact Rune.inOperator_iff.mpr ⟨op, by rw [hr]; exact List.mem_cons_self⟩

/-- Every rune that operators are written with begins one of two operands. -/
theorem begins_of_inOperator (h : Rune.inOperator r = true) : begins [r] .binary = true := by
  have hall : Rune.operatorRunes.all (fun r => begins [r] .binary) = true := by decide
  exact List.all_eq_true.mp hall r (List.contains_iff_mem.mp h)

/-- A rune that begins an operator of one operand is that operator. -/
theorem spelling_of_begins_unary (h : begins [r] .unary = true) : Operator.not.spelling = [r] := by
  obtain ⟨op, ha, hop⟩ := begins_iff.mp h
  cases op with
  | not => exact (hop.eq_of_length rfl).symm
  | _ => cases ha

/-- The first rune of an operator is one of two operands, or it is half of `==` or `!=`. -/
theorem isOk_lookup_first (op : Operator) :
    (lookup (op.spelling.take 1) .binary).isOk = true ∨
      op.spelling.take 1 = ['='] ∨ op.spelling.take 1 = ['!'] := by
  cases op <;> decide

/-- What begins an operator of two operands and is none is half of one. -/
theorem half_of_lookup {problem : Problem} (hw : begins w .binary = true) (hn : w ≠ [])
    (h : lookup w .binary = .error problem) : w = ['='] ∨ w = ['!'] := by
  obtain ⟨op, ha, hop⟩ := begins_iff.mp hw
  have hne : w ≠ op.spelling := by
    intro heq
    rw [lookup_eq_ok_iff.mpr ⟨heq.symm, ha⟩] at h
    cases h
  have hone : w.length = 1 := by
    have hpos := List.length_pos_iff.mpr hn
    have hle := hop.length_le
    have hlt : w.length ≠ op.spelling.length := fun heq => hne (hop.eq_of_length heq)
    have htwo := op.length_spelling
    omega
  have htake : w = op.spelling.take 1 := by
    rw [← hone]
    exact List.prefix_iff_eq_take.mp hop
  rw [htake] at h ⊢
  rcases op.isOk_lookup_first with hok | hhalf
  · rw [h] at hok
    cases hok
  · exact hhalf

/-! ## The longest word -/

/-- The longest word that stands at the runes and begins an operator of the arity. -/
structure IsBegun (arity : Arity) (runes word : List Char) : Prop where
  stands : word <+: runes
  begins : Operator.begins word arity = true
  longest : ∀ other, other <+: runes → Operator.begins other arity = true →
    other.length ≤ word.length

/-- The longest operator of the arity that stands at the runes. -/
structure IsLongest (arity : Arity) (runes : List Char) (op : Operator) : Prop where
  takes : op.arity = arity
  stands : op.spelling <+: runes
  longest : ∀ other : Operator, other.arity = arity → other.spelling <+: runes →
    other.spelling.length ≤ op.spelling.length

/-- What has been read of an operator begins one at each moment. -/
theorem begins_longest (runes : List Char) (hw : begins w arity = true) :
    begins (longest arity w runes) arity = true := by
  induction runes generalizing w with
  | nil => exact hw
  | cons r runes ih =>
    unfold longest
    split
    · rename_i hr
      exact ih ((Bool.and_eq_true ..).mp hr).2
    · exact hw

theorem isBegun_longest (arity : Arity) (runes : List Char) :
    IsBegun arity runes (longest arity [] runes) := by
  have hnil : begins [] arity = true := by cases arity <;> decide
  have hbegins := begins_longest runes hnil
  obtain ⟨w, tail, hruns, hw, htail⟩ := Spot.longest_eq arity [] runes
  rw [List.nil_append] at hw htail
  rw [hw] at hbegins ⊢
  refine ⟨⟨tail, hruns.symm⟩, hbegins, ?_⟩
  intro other hother hbegun
  by_contra hlt
  -- A longer one would have gone on with the rune that comes next.
  obtain ⟨u, rfl⟩ : w <+: other :=
    List.prefix_of_prefix_length_le ⟨tail, hruns.symm⟩ hother (by omega)
  rw [hruns, List.prefix_append_right_inj] at hother
  cases u with
  | nil => simp at hlt
  | cons r u =>
    obtain ⟨op, ha, hop⟩ := begins_iff.mp hbegun
    have hgrown : begins (w ++ [r]) arity = true :=
      begins_iff.mpr ⟨op, ha, List.IsPrefix.trans ⟨u, by simp⟩ hop⟩
    obtain ⟨rest, rfl⟩ := hother
    rw [htail r rfl] at hgrown
    cases hgrown

namespace IsBegun

/-- The longest word that begins an operator is one wherever one stands. -/
theorem exists_lookup (h : IsBegun arity runes w) (ha : op.arity = arity)
    (hop : op.spelling <+: runes) : ∃ other, lookup w arity = .ok other := by
  have hbegins : Operator.begins op.spelling arity = true :=
    begins_iff.mpr ⟨op, ha, List.prefix_refl _⟩
  have hstands : op.spelling <+: w :=
    List.prefix_of_prefix_length_le hop h.stands (h.longest _ hop hbegins)
  obtain ⟨other, hother⟩ := exists_spelling h.begins ha hstands
  exact ⟨other, lookup_eq_ok_iff.mpr hother⟩

/-- If it is an operator, then no longer operator stands there. -/
theorem isLongest (h : IsBegun arity runes w) (hop : lookup w arity = .ok op) :
    op.IsLongest arity runes := by
  obtain ⟨rfl, ha⟩ := lookup_eq_ok_iff.mp hop
  refine ⟨ha, h.stands, ?_⟩
  intro other hother hstands
  exact h.longest _ hstands (begins_iff.mpr ⟨other, hother, List.prefix_refl _⟩)

/-- If it is none, then no operator stands there. -/
theorem absent {problem : Problem} (h : IsBegun arity runes w)
    (hw : lookup w arity = .error problem) :
    ∀ op : Operator, op.arity = arity → ¬ op.spelling <+: runes := by
  intro op ha hop
  obtain ⟨other, hother⟩ := h.exists_lookup ha hop
  rw [hw] at hother
  cases hother

/-- Something of an operator is read where an operator may begin. -/
theorem ne_nil (h : IsBegun arity runes w) (hr : runes.head? = some r)
    (hbegins : Operator.begins [r] arity = true) : w ≠ [] := by
  obtain ⟨rest, rfl⟩ := List.head?_eq_some_iff.mp hr
  have hle := h.longest [r] ⟨rest, rfl⟩ hbegins
  exact List.ne_nil_of_length_pos hle

end IsBegun

end Operator

/-! ## Lexers before an operator -/

/-- The state in which a lexer reads an operator of the arity. -/
def Arity.state : Arity → State
  | unary => .unaryOperator
  | binary => .binaryOperator

namespace Lexer

variable {arity : Arity} {l m : Lexer}

/-- What becomes of a lexer that is to read an operator of the arity and has read nothing yet. -/
inductive Munched (arity : Arity) (l m : Lexer) : Prop where
  /-- An operator of the arity stands there. The longest is read as a token, and what comes behind
  it is yet to be handed out. -/
  | read {op : Operator} (longest : op.IsLongest arity l.cursor.remaining)
      (behind : l.cursor.remaining = op.spelling ++ m.cursor.remaining)
      (pos : m.cursor.pos = l.cursor.pos + op.spelling.length)
      (queue : m.queue = l.queue ++ [⟨.operator op, String.ofList op.spelling, l.cursor.pos,
        l.cursor.pos + op.spelling.length, l.file⟩])
      (taken : m.taken = []) (state : m.state = some .operand) (parens : m.parens = l.parens)
      (outer : m.outer = l.outer) (error : m.error = l.error) : Munched arity l m
  /-- The rune that comes next is none of an operator, or there is none. -/
  | misplaced {d : Diagnostic}
      (absent : ∀ op : Operator, op.arity = arity → ¬ op.spelling <+: l.cursor.remaining)
      (rune : l.cursor.remaining.head?.any Rune.inOperator = false)
      (problem : d = ⟨unexpected l.cursor.remaining.head? "an operator position",
        l.cursor.pos, l.file⟩)
      (gaveUp : GaveUp d (l.queue ++ [report d]) m) : Munched arity l m
  /-- The rune is one of an operator, but no operator of the arity stands there. -/
  | unspelled {d : Diagnostic} {word : List Char}
      (absent : ∀ op : Operator, op.arity = arity → ¬ op.spelling <+: l.cursor.remaining)
      (rune : l.cursor.remaining.head?.any Rune.inOperator = true)
      (begun : Operator.IsBegun arity l.cursor.remaining word)
      (problem : d = ⟨.notAnOperator (String.ofList word) arity.word, l.cursor.pos, l.file⟩)
      (gaveUp : GaveUp d (l.queue ++ [report d]) m) : Munched arity l m

/-- A lexer between tokens that is to read an operator munches it. -/
theorem munched_scanOperator (arity : Arity) (h : l.taken = []) :
    Munched arity l (l.scanOperator arity) := by
  have hpeek := (holds_remaining h .operand).took (took_peek l)
  rw [List.append_nil] at hpeek
  unfold scanOperator
  dsimp only
  rw [ahead_peek]
  by_cases hrune : l.cursor.remaining.head?.any Rune.inOperator = true
  · rw [if_pos hrune]
    have hword := hpeek.munch arity
    have begun := Operator.isBegun_longest arity l.cursor.remaining
    rw [hword.lexeme]
    cases hop : Operator.lookup (Operator.longest arity [] l.cursor.remaining) arity with
    | ok op =>
      have hspelling := (Operator.lookup_eq_ok_iff.mp hop).1
      dsimp only at hword
      rw [← hspelling] at hword
      have hread := hword.emit (hspelling ▸ Operator.ne_nil_of_lookup hop) (.operator op)
      exact .read (begun.isLongest hop) hword.rest hread.pos hread.queue rfl rfl hread.parens
        hread.outer hread.error
    | error problem =>
      rw [Operator.error_of_lookup hop]
      exact .unspelled (begun.absent hop) hrune begun rfl (hword.gaveUp _)
  · rw [if_neg hrune]
    have absent : ∀ op : Operator, op.arity = arity → ¬ op.spelling <+: l.cursor.remaining := by
      intro op _ hop
      exact hrune (Operator.inOperator_of_stands hop)
    exact .misplaced absent (Bool.eq_false_iff.mpr hrune) rfl (hpeek.gaveUp _)

theorem scan_state (arity : Arity) (l : Lexer) : l.scan arity.state = l.scanOperator arity := by
  cases arity <;> rfl

/-- A lexer of a source that comes to an operator has read nothing of it yet. -/
theorem munched_step {source : List Char} {file : String} {n : Nat}
    (h : (step^[n] (ofRunes source file)).state = some arity.state) :
    Munched arity (step^[n] (ofRunes source file)) (step^[n + 1] (ofRunes source file)) := by
  rw [Function.iterate_succ_apply', step_eq h, scan_state]
  apply munched_scanOperator
  have course := course_iterate source file n
  generalize step^[n] (ofRunes source file) = m at course h
  cases course with
  | working work =>
    rw [work.expects] at h
    cases h
    have poised := work.poised
    cases arity with
    | unary => exact poised
    | binary => exact poised.1
  | halted => cases h
  | failed => cases h

end Lexer

/-! ## Halves of operators -/

/-- Where the problem is that a spelling is no operator, the spelling is half of one of two
operands, and such an operator is looked for. -/
def Problem.OnlyHalves (problem : Problem) : Prop :=
  ∀ spelling arity, problem = .notAnOperator spelling arity →
    arity = Arity.binary.word ∧ (spelling = "=" ∨ spelling = "!")

/-- If what comes next is a problem, it is such a one. -/
def Phrase.OnlyHalves : Phrase → Prop
  | failed d => d.problem.OnlyHalves
  | _ => True

section

variable {s next : Stance} {a b : Spot} {ts : List Token} {r : Char}

@[simp] theorem Problem.onlyHalves_unexpected (found : Option Char) (place : String) :
    (Lexer.unexpected found place).OnlyHalves := by
  cases found <;> simp [OnlyHalves, Lexer.unexpected]

@[simp] theorem Phrase.onlyHalves_ended : Phrase.ended.OnlyHalves := trivial

@[simp] theorem Phrase.onlyHalves_read : (Phrase.read ts next b).OnlyHalves := trivial

@[simp] theorem Phrase.onlyHalves_reads {kind : Kind} {w : List Char} :
    (a.reads kind w next).OnlyHalves := trivial

@[simp] theorem Phrase.onlyHalves_fails {problem : Problem} :
    (a.fails problem).OnlyHalves ↔ problem.OnlyHalves := Iff.rfl

namespace Stance

theorem onlyHalves_letName : (s.letName a).OnlyHalves := by
  unfold letName
  dsimp only
  split_ifs <;> simp

theorem onlyHalves_letType : (s.letType a).OnlyHalves := by
  unfold letType
  split
  · cases hlookup : TypeWord.lookup a.word with
    | ok word => simp
    | error problem =>
      rw [TypeWord.error_of_lookup hlookup]
      simp [Problem.OnlyHalves]
  · simp

theorem onlyHalves_tupleTypeOpen : (s.tupleTypeOpen a).OnlyHalves := by
  unfold tupleTypeOpen
  split_ifs <;> simp

theorem onlyHalves_tupleTypeNext : (s.tupleTypeNext a).OnlyHalves := by
  unfold tupleTypeNext
  split_ifs <;> simp

theorem onlyHalves_letAssign : (s.letAssign a).OnlyHalves := by
  unfold letAssign
  split_ifs <;> simp

/-- What is read of an operator of two operands is one, or it is half of one. -/
theorem onlyHalves_binary : (s.operator a .binary).OnlyHalves := by
  unfold operator
  split
  · rename_i hrune
    obtain ⟨r, hr, hin⟩ := (Option.any_eq_true ..).mp hrune
    have begun := Operator.isBegun_longest .binary a.rest
    have hn := begun.ne_nil hr (Operator.begins_of_inOperator hin)
    cases hlookup : Operator.lookup (Operator.longest .binary [] a.rest) .binary with
    | ok op => simp
    | error problem =>
      intro spelling arity heq
      rw [Operator.error_of_lookup hlookup] at heq
      cases heq
      refine ⟨rfl, ?_⟩
      rcases Operator.half_of_lookup begun.begins hn hlookup with hw | hw
      · exact .inl (by rw [hw])
      · exact .inr (by rw [hw])
  · simp

/-- An operator of one operand is read wherever it may begin. -/
theorem onlyHalves_unary (hr : a.ahead = some r) (h : Operator.begins [r] .unary = true) :
    (s.operator a .unary).OnlyHalves := by
  obtain ⟨rest, hrest⟩ := List.head?_eq_some_iff.mp hr
  have begun := Operator.isBegun_longest .unary a.rest
  have hstands : Operator.not.spelling <+: a.rest := by
    rw [Operator.spelling_of_begins_unary h, hrest]
    exact ⟨rest, rfl⟩
  obtain ⟨op, hop⟩ := begun.exists_lookup rfl hstands
  unfold operator
  split
  · rw [hop]
    simp
  · simp

theorem onlyHalves_closing : (s.closing a).OnlyHalves := by
  unfold closing
  split <;> simp [Problem.OnlyHalves]

theorem onlyHalves_name : (s.name a).OnlyHalves := by
  unfold name
  dsimp only
  split_ifs <;> simp

theorem onlyHalves_number : (s.number a).OnlyHalves := by
  unfold number fraction
  dsimp only
  split_ifs <;> simp [Problem.OnlyHalves]

theorem onlyHalves_quoted {quote : Char} {body : Char → Bool} {kind : Kind} :
    (s.quoted a quote body kind).OnlyHalves := by
  unfold quoted
  dsimp only
  split_ifs <;> simp [Problem.OnlyHalves]

theorem onlyHalves_operand : (s.operand a).OnlyHalves := by
  unfold operand
  split
  · simp
  rename_i r hr
  split_ifs with hopen hclose hname hdigit hstring hchar hunary
  · simp
  · exact onlyHalves_closing
  · exact onlyHalves_name
  · exact onlyHalves_number
  · exact onlyHalves_quoted
  · exact onlyHalves_quoted
  · exact onlyHalves_unary hr hunary
  · simp [Problem.OnlyHalves]

theorem onlyHalves_afterOperand : (s.afterOperand a).OnlyHalves := by
  unfold afterOperand
  split
  · simp
  · split_ifs <;> simp [onlyHalves_closing, onlyHalves_binary, Problem.OnlyHalves]

theorem onlyHalves_statementHead : (s.statementHead a).OnlyHalves := by
  unfold statementHead
  split
  · simp
  · exact onlyHalves_operand

end Stance

end

/-- Whatever comes next, no other spelling is met that is no operator. -/
theorem onlyHalves_phrase (s : Stance) (a : Spot) : (phrase s a).OnlyHalves := by
  unfold phrase
  cases s.mode with
  | statementHead => exact Stance.onlyHalves_statementHead
  | letName => exact Stance.onlyHalves_letName
  | letType => exact Stance.onlyHalves_letType
  | tupleTypeOpen => exact Stance.onlyHalves_tupleTypeOpen
  | tupleTypeNext => exact Stance.onlyHalves_tupleTypeNext
  | letAssign => exact Stance.onlyHalves_letAssign
  | operand => exact Stance.onlyHalves_operand
  | afterOperand => exact Stance.onlyHalves_afterOperand

theorem onlyHalves_reading (s : Stance) (a : Spot) (d : Diagnostic)
    (h : (reading s a).2 = some d) : d.problem.OnlyHalves := by
  refine of_problem_reading (P := fun d => d.problem.OnlyHalves) ?_ s a d h
  intro s a d hp
  have hhalves := onlyHalves_phrase s a
  rw [hp] at hhalves
  exact hhalves

/-! ## The law -/

/-- Operators are munched. A lexer with nothing read of a token, that is to read an operator of an
arity, reads the longest operator of the arity that stands before it, whatever that is, and leaves
the rest; it gives up only if none stands there, with a problem at the rune that comes next. Every
run does so whenever it comes to an operator. And where a run ends with a spelling that is no
operator, then an operator of two operands was looked for, and the spelling is `=` or `!`. -/
theorem operators_munched :
    (∀ (arity : Arity) (l : Lexer), l.taken = [] → Lexer.Munched arity l (l.scanOperator arity)) ∧
    ∀ (source : List Char) (file : String) (n : Nat),
      (∀ arity : Arity, (Lexer.step^[n] (Lexer.ofRunes source file)).state = some arity.state →
        Lexer.Munched arity (Lexer.step^[n] (Lexer.ofRunes source file))
          (Lexer.step^[n + 1] (Lexer.ofRunes source file))) ∧
      ∀ (spelling arity : String) (position : Position),
        (Lexer.step^[n] (Lexer.ofRunes source file)).error
          = some ⟨.notAnOperator spelling arity, position⟩ →
        arity = Arity.binary.word ∧ (spelling = "=" ∨ spelling = "!") := by
  refine ⟨fun arity l => Lexer.munched_scanOperator arity, fun source file n => ⟨?_, ?_⟩⟩
  · intro arity h
    exact Lexer.munched_step h
  · intro spelling arity position h
    exact onlyHalves_reading _ _ _ (Lexer.problem_of_iterate h) spelling arity rfl

/-- In `1>=2=3` the operator `>=` comes up after four steps, and the later `=` is half of one. -/
theorem operators_munched_comparisonThenHalf :
    (Lexer.step^[4] (Lexer.ofRunes ['1', '>', '=', '2', '=', '3'] "shell")).taken = [] ∧
    Lexer.Munched .binary (Lexer.step^[4] (Lexer.ofRunes ['1', '>', '=', '2', '=', '3'] "shell"))
      ((Lexer.step^[4] (Lexer.ofRunes ['1', '>', '=', '2', '=', '3'] "shell")).scanOperator
        .binary) ∧
    Lexer.Munched .binary (Lexer.step^[4] (Lexer.ofRunes ['1', '>', '=', '2', '=', '3'] "shell"))
      (Lexer.step^[4 + 1] (Lexer.ofRunes ['1', '>', '=', '2', '=', '3'] "shell")) ∧
    (Lexer.step^[9] (Lexer.ofRunes ['1', '>', '=', '2', '=', '3'] "shell")).error
      = some ⟨.notAnOperator "=" "binary", 4, "shell"⟩ ∧
    "binary" = Arity.binary.word ∧ ("=" = "=" ∨ "=" = "!") := by
  have htaken : (Lexer.step^[4] (Lexer.ofRunes ['1', '>', '=', '2', '=', '3'] "shell")).taken
      = [] := by
    decide +kernel
  have hstate : (Lexer.step^[4] (Lexer.ofRunes ['1', '>', '=', '2', '=', '3'] "shell")).state
      = some Arity.binary.state := by
    decide +kernel
  have herror : (Lexer.step^[9] (Lexer.ofRunes ['1', '>', '=', '2', '=', '3'] "shell")).error
      = some ⟨.notAnOperator "=" "binary", 4, "shell"⟩ := by
    decide +kernel
  exact ⟨htaken, operators_munched.1 .binary _ htaken,
    (operators_munched.2 _ "shell" 4).1 .binary hstate,
    herror, (operators_munched.2 _ "shell" 9).2 "=" "binary" _ herror⟩

end ExprYard
