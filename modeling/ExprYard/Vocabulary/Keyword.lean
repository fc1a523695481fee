import ExprYard.Vocabulary.Operator

/-!
# Keywords

The words and marks that shape a statement. The comma, the colon and the assignment sign join what
stands on their two sides, so they carry a binding like binary operators do.
-/

namespace ExprYard

/-- A keyword of the language. -/
inductive Keyword where
  | typeSeparator
  | assign
  | comma
  | semicolon
  | letWord
deriving DecidableEq

namespace Keyword

/-- Every keyword, once. -/
def all : List Keyword :=
  [typeSeparator, assign, comma, semicolon, letWord]

/-- The name of a keyword. -/
def name : Keyword → String
  | typeSeparator => "TypeSeparator"
  | assign => "Assign"
  | comma => "Comma"
  | semicolon => "Semicolon"
  | letWord => "Let"

/-- The runes that a keyword is written with. -/
def spelling : Keyword → List Char
  | typeSeparator => [':']
  | assign => ['=']
  | comma => [',']
  | semicolon => [';']
  | letWord => ['l', 'e', 't']

/-- The keyword that is written `runes`. -/
def lookup (runes : List Char) : Except Problem Keyword :=
  match all.find? (fun word => word.spelling = runes) with
  | some word => .ok word
  | none => .error (.notAKeyword (String.ofList runes))

/-- How a keyword is folded with its operands, if it takes any. The assignment joins the target of a
declaration to its value after everything else has been folded. -/
def binding : Keyword → Option Binding
  | comma => some Operator.comma.binding
  | typeSeparator => some Operator.type.binding
  | assign => some ⟨0, .right, .binary⟩
  | semicolon | letWord => none

theorem mem_all (word : Keyword) : word ∈ all := by
  cases word <;> decide

/-- No two keywords are written alike. -/
theorem spelling_injective {a b : Keyword} (h : a.spelling = b.spelling) : a = b := by
  cases a <;> cases b <;> simp_all [spelling]

/-- Looking a spelling up finds exactly the keyword that is written so. -/
theorem lookup_eq_ok_iff {runes : List Char} {word : Keyword} :
    lookup runes = .ok word ↔ word.spelling = runes := by
  simp only [lookup]
  cases h : all.find? (fun word => word.spelling = runes) with
  | none =>
    have := List.find?_eq_none.mp h word (mem_all word)
    simp_all
  | some found =>
    have hs : found.spelling = runes := by simpa using List.find?_some h
    simp only [Except.ok.injEq]
    exact ⟨fun h => h ▸ hs, fun h => spelling_injective (hs.trans h.symm)⟩

end Keyword

end ExprYard
