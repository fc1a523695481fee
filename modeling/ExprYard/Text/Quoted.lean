import ExprYard.Rune.Extending
import ExprYard.Rune.Ignorable
import ExprYard.Rune.Unprintable

/-!
# Quoted text

How a message shows a piece of input: between quotes, on one line, and with every rune that a reader
could not see or tell apart written as an escape. A text stands between `"`, a single rune between
`'`, and of the two quotes only the enclosing one is escaped.
-/

namespace ExprYard.Text.Quoted

/-- The escape that writes a rune by its code point, in lowercase hexadecimal without padding. -/
def codePointEscape (rune : Char) : List Char :=
  ['\\', 'u', '\x7b'] ++ Nat.toDigits 16 rune.toNat ++ ['\x7d']

/-- Whether a reader could not see a rune, or not tell it apart from the one before it. -/
def isHidden (rune : Char) : Bool :=
  Rune.isExtending rune || Rune.isIgnorable rune || Rune.isUnprintable rune

/-- How a rune is written between two `quote`s. -/
def escape (quote rune : Char) : List Char :=
  match rune with
  | '\x00' => ['\\', '0']
  | '\t' => ['\\', 't']
  | '\r' => ['\\', 'r']
  | '\n' => ['\\', 'n']
  | '\\' => ['\\', '\\']
  | _ =>
    if rune = quote then ['\\', quote]
    else if isHidden rune then codePointEscape rune
    else [rune]

/-- A text between double quotes. -/
def text (s : String) : String :=
  String.ofList ('"' :: s.toList.flatMap (escape '"') ++ ['"'])

/-- A rune between single quotes. -/
def rune (r : Char) : String :=
  String.ofList ('\'' :: escape '\'' r ++ ['\''])

end ExprYard.Text.Quoted
