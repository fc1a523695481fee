import ExprYard.Problem

/-!
# Type words

The words that may follow the colon of a declaration. All but `tuple` name a type by themselves;
`tuple` is followed by its element types in parentheses.
-/

namespace ExprYard

/-- A word that names a type. -/
inductive TypeWord where
  | i32
  | f32
  | bool
  | string
  | rune
  | tuple
deriving DecidableEq

namespace TypeWord

/-- Every type word, once. -/
def all : List TypeWord :=
  [i32, f32, bool, string, rune, tuple]

/-- The name of a type word. -/
def name : TypeWord → String
  | i32 => "I32"
  | f32 => "F32"
  | bool => "Bool"
  | string => "String"
  | rune => "Rune"
  | tuple => "Tuple"

/-- The runes that a type word is written with. -/
def spelling : TypeWord → List Char
  | i32 => ['i', '3', '2']
  | f32 => ['f', '3', '2']
  | bool => ['b', 'o', 'o', 'l']
  | string => ['s', 't', 'r', 'i', 'n', 'g']
  | rune => ['r', 'u', 'n', 'e']
  | tuple => ['t', 'u', 'p', 'l', 'e']

/-- The type word that is written `runes`. -/
def lookup (runes : List Char) : Except Problem TypeWord :=
  match all.find? (fun word => word.spelling = runes) with
  | some word => .ok word
  | none => .error (.notAType (String.ofList runes))

theorem mem_all (word : TypeWord) : word ∈ all := by
  cases word <;> decide

/-- No two type words are written alike. -/
theorem spelling_injective {a b : TypeWord} (h : a.spelling = b.spelling) : a = b := by
  cases a <;> cases b <;> simp_all [spelling]

/-- Looking a spelling up finds exactly the type word that is written so. -/
theorem lookup_eq_ok_iff {runes : List Char} {word : TypeWord} :
    lookup runes = .ok word ↔ word.spelling = runes := by
  simp only [lookup]
  cases h : all.find? (fun word => word.spelling = runes) with
  | none =>
    have := List.find?_eq_none.mp h word (mem_all word)
    simp_all
  | some found =>
    have hs : found.spelling = runes := by simpa using List.find?_some h
    simp only [Except.ok.injEq]
    exact ⟨fun h => h ▸ hs, fun h => spelling_injective (hs.trans h.symm)⟩

/-- Looking a spelling up fails in one way only. -/
theorem error_of_lookup {runes : List Char} {problem : Problem}
    (h : lookup runes = .error problem) : problem = .notAType (String.ofList runes) := by
  unfold lookup at h
  split at h <;> cases h
  rfl

end TypeWord

end ExprYard
