import ExprYard.Rune.Alphabetic
import ExprYard.Rune.Blank
import ExprYard.Rune.Numeric
import ExprYard.Vocabulary.Operator

/-!
# Lexical classes

The sets of runes that the tokens of the language are made of. A name starts with a letter or `_`
and goes on with letters, numbers and `_`; a number starts with a number and goes on with numbers
and `_`; a literal holds anything but controls and its own quote; and an operator is made of the
runes that some operator is written with.
-/

namespace ExprYard.Rune

/-- Whether a rune is a control: of general category Cc. -/
def isControl (rune : Char) : Bool :=
  rune.toNat < 0x20 || (0x7F ≤ rune.toNat && rune.toNat ≤ 0x9F)

/-- Whether a rune may start a name. -/
def startsName (rune : Char) : Bool :=
  isAlphabetic rune || rune = '_'

/-- Whether a rune may go on with a name. -/
def continuesName (rune : Char) : Bool :=
  isAlphabetic rune || isNumeric rune || rune = '_'

/-- Whether a rune may start a number. -/
def isDigit (rune : Char) : Bool :=
  isNumeric rune

/-- Whether a rune may stand in a number. -/
def inNumber (rune : Char) : Bool :=
  isNumeric rune || rune = '_'

/-- Whether a rune may stand between double quotes. -/
def inString (rune : Char) : Bool :=
  !isControl rune && rune ≠ '"'

/-- Whether a rune may stand between single quotes. -/
def inChar (rune : Char) : Bool :=
  !isControl rune && rune ≠ '\''

/-- The runes that operators are written with. -/
def operatorRunes : List Char :=
  Operator.all.flatMap Operator.spelling

/-- Whether some operator is written with the rune. -/
def inOperator (rune : Char) : Bool :=
  operatorRunes.contains rune

/-- Whatever starts a name may also go on with one. -/
theorem continuesName_of_startsName {rune : Char} (h : startsName rune = true) :
    continuesName rune = true := by
  simp only [startsName, Bool.or_eq_true] at h
  simp only [continuesName, Bool.or_eq_true]
  rcases h with h | h
  · exact Or.inl (Or.inl h)
  · exact Or.inr h

/-- Whatever starts a number may also go on with one. -/
theorem inNumber_of_isDigit {rune : Char} (h : isDigit rune = true) : inNumber rune = true := by
  simp only [isDigit] at h
  simp [inNumber, h]

/-- A name goes on with what goes on with a number. -/
theorem continuesName_of_inNumber {rune : Char} (h : inNumber rune = true) :
    continuesName rune = true := by
  simp only [inNumber, Bool.or_eq_true] at h
  simp only [continuesName, Bool.or_eq_true]
  rcases h with h | h
  · exact Or.inl (Or.inr h)
  · exact Or.inr h

/-- The runes that operators are made of are the runes of their spellings. -/
theorem inOperator_iff {rune : Char} :
    inOperator rune = true ↔ ∃ op : Operator, rune ∈ op.spelling := by
  simp only [inOperator, operatorRunes, List.contains_iff_mem, List.mem_flatMap]
  exact ⟨fun ⟨op, _, h⟩ => ⟨op, h⟩, fun ⟨op, h⟩ => ⟨op, Operator.mem_all op, h⟩⟩

end ExprYard.Rune
