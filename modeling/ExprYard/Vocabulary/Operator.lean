import ExprYard.Problem

/-!
# Operators

The operators of the language: their spellings, how many operands each takes, and how tightly each
holds on to them. `Binding` is the part of this that the parser needs, so that a keyword can be
bound like an operator without being one. `Operator.lookup` resolves a spelling and
`Operator.begins` says whether runes can still grow into one.
-/

namespace ExprYard

/-- On how many operands an operator works. -/
inductive Arity where
  | unary
  | binary
deriving DecidableEq

namespace Arity

/-- The word for an arity in a message. -/
def word : Arity → String
  | unary => "unary"
  | binary => "binary"

/-- The number of operands that an operator of this arity takes. -/
def operands : Arity → Nat
  | unary => 1
  | binary => 2

end Arity

/-- Which of two equally tight operators in a row takes its operands first. -/
inductive Associativity where
  | left
  | right
deriving DecidableEq

/-- The name of an associativity. -/
def Associativity.name : Associativity → String
  | left => "Left"
  | right => "Right"

/-- How a token is folded with its operands: the higher the precedence, the tighter it binds. -/
structure Binding where
  precedence : Nat
  associativity : Associativity
  arity : Arity
deriving DecidableEq

/-- Whether an operator that already waits for its right operand takes it before `incoming` may have
it: a tighter one does, and among equally tight ones it does unless `incoming` associates to the
right. -/
def Binding.foldsBefore (waiting incoming : Binding) : Bool :=
  match incoming.associativity with
  | .left => incoming.precedence ≤ waiting.precedence
  | .right => incoming.precedence < waiting.precedence

/-- An operator of the language. -/
inductive Operator where
  | add
  | sub
  | mul
  | div
  | mod
  | comma
  | dot
  | type
  | eq
  | notEq
  | gt
  | gtEq
  | lt
  | ltEq
  | not
deriving DecidableEq

namespace Operator

/-- Every operator, once. -/
def all : List Operator :=
  [add, sub, mul, div, mod, comma, dot, type, eq, notEq, gt, gtEq, lt, ltEq, not]

/-- The name of an operator. -/
def name : Operator → String
  | add => "Add"
  | sub => "Sub"
  | mul => "Mul"
  | div => "Div"
  | mod => "Mod"
  | comma => "Comma"
  | dot => "Dot"
  | type => "Type"
  | eq => "Eq"
  | notEq => "NotEq"
  | gt => "Gt"
  | gtEq => "GtEq"
  | lt => "Lt"
  | ltEq => "LtEq"
  | not => "Not"

/-- The runes that an operator is written with. -/
def spelling : Operator → List Char
  | add => ['+']
  | sub => ['-']
  | mul => ['*']
  | div => ['/']
  | mod => ['%']
  | comma => [',']
  | dot => ['.']
  | type => [':']
  | eq => ['=', '=']
  | notEq => ['!', '=']
  | gt => ['>']
  | gtEq => ['>', '=']
  | lt => ['<']
  | ltEq => ['<', '=']
  | not => ['!']

/-- Only `!` takes a single operand. -/
def arity : Operator → Arity
  | not => .unary
  | _ => .binary

/-- How tightly an operator binds. Comparisons, `:` and `!` bind tightest of all. -/
def precedence : Operator → Nat
  | comma => 1
  | add | sub => 2
  | mul | div | mod => 3
  | dot => 4
  | _ => 15

/-- Only `!` associates to the right. -/
def associativity : Operator → Associativity
  | not => .right
  | _ => .left

/-- How an operator is folded with its operands. -/
def binding (op : Operator) : Binding :=
  ⟨op.precedence, op.associativity, op.arity⟩

/-- The operator of the given arity that is written `runes`. -/
def lookup (runes : List Char) (arity : Arity) : Except Problem Operator :=
  match all.find? (fun op => op.spelling = runes) with
  | some op =>
    if op.arity = arity then .ok op else .error (.notAnOperator (String.ofList runes) arity.word)
  | none => .error (.notAnOperator (String.ofList runes) arity.word)

/-- Whether some operator of the given arity is written with `runes` first. No runes at all begin
every operator. -/
def begins (runes : List Char) (arity : Arity) : Bool :=
  all.any fun op => op.arity = arity && runes.isPrefixOf op.spelling

theorem mem_all (op : Operator) : op ∈ all := by
  cases op <;> decide

/-- Runes begin an operator of an arity if one is written with them first. -/
theorem begins_iff {runes : List Char} {arity : Arity} :
    begins runes arity = true ↔ ∃ op : Operator, op.arity = arity ∧ runes <+: op.spelling := by
  simp only [begins, List.any_eq_true, Bool.and_eq_true, decide_eq_true_eq,
    List.isPrefixOf_iff_prefix]
  constructor
  · rintro ⟨op, -, h⟩
    exact ⟨op, h⟩
  · rintro ⟨op, h⟩
    exact ⟨op, mem_all op, h⟩

/-- No two operators are written alike. -/
theorem spelling_injective {a b : Operator} (h : a.spelling = b.spelling) : a = b := by
  cases a <;> cases b <;> simp_all [spelling]

/-- Looking a spelling up finds an operator exactly when it is written so and has the arity. -/
theorem lookup_eq_ok_iff {runes : List Char} {arity : Arity} {op : Operator} :
    lookup runes arity = .ok op ↔ op.spelling = runes ∧ op.arity = arity := by
  simp only [lookup]
  cases h : all.find? (fun op => op.spelling = runes) with
  | none =>
    have := List.find?_eq_none.mp h op (mem_all op)
    simp_all
  | some found =>
    have hs : found.spelling = runes := by simpa using List.find?_some h
    by_cases ha : found.arity = arity
    · simp only [ha, if_true, Except.ok.injEq]
      constructor
      · rintro rfl
        exact ⟨hs, ha⟩
      · rintro ⟨h1, _⟩
        exact spelling_injective (hs.trans h1.symm)
    · simp only [ha, if_false, reduceCtorEq, false_iff]
      rintro ⟨h1, h2⟩
      exact ha (spelling_injective (hs.trans h1.symm) ▸ h2)

/-- Looking a spelling up fails in one way only. -/
theorem error_of_lookup {runes : List Char} {arity : Arity} {problem : Problem}
    (h : lookup runes arity = .error problem) :
    problem = .notAnOperator (String.ofList runes) arity.word := by
  unfold lookup at h
  split at h
  · split at h <;> cases h
    rfl
  · cases h
    rfl

end Operator

end ExprYard
