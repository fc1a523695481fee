import ExprYard.Problem
import ExprYard.Source.Line
import ExprYard.Source.Position

/-!
# Diagnostics

A diagnostic is a problem at a place. `render` shows it above the line it stands on:

    Error: MissingOperand (Operator `+` is missing an operand)
    -> shell
      |
    1 | (1 + )
      | ---^

The line is shown without its leading spaces and trailing blanks, and the caret stands under the
rune at the diagnostic's offset.

Lines are padded up to a width, and there is a greatest one. `shown` is what becomes of the rendering
with that in mind: where the caret stands too far into its line nothing is shown, and whoever wanted
to show it crashes.
-/

namespace ExprYard

/-- A problem and the place it was found at. -/
structure Diagnostic where
  problem : Problem
  position : Position
deriving DecidableEq

/-- Two results agree when they are equal values or equal diagnostics. -/
instance decideResultEq {α : Type} [DecidableEq α] : DecidableEq (Except Diagnostic α)
  | .ok a, .ok b => decidable_of_iff (a = b) (by simp)
  | .error d, .error e => decidable_of_iff (d = e) (by simp)
  | .ok _, .error _ => isFalse (by simp)
  | .error _, .ok _ => isFalse (by simp)

namespace Diagnostic

/-- The diagnostic with what is kept of its place. -/
def narrow (d : Diagnostic) : Diagnostic :=
  { d with position := d.position.narrow }

/-- The message and the place, in one line. -/
def display (d : Diagnostic) : String :=
  d.problem.message ++ " at " ++ d.position.file ++ ":" ++ toString d.position.offset

/-- The first line of a rendered diagnostic, without its newline. -/
def headline (d : Diagnostic) : String :=
  match d.problem.tip with
  | none => "Error: " ++ d.problem.name
  | some tip => "Error: " ++ d.problem.name ++ " (" ++ tip ++ ")"

/-- The line without its leading spaces and its trailing blanks. -/
def codeOf (line : List Char) : List Char :=
  Text.trimEnd (line.dropWhile (· = ' '))

/-- How many leading spaces the shown line lacks. -/
def indentOf (line : List Char) : Nat :=
  (line.takeWhile (· = ' ')).length

/-- The bar that ends a gutter of the given width. -/
def gutter (width : Nat) : List Char :=
  List.replicate (width - 1) ' ' ++ ['|']

/-- The caret that stands `indent` runes into the shown line, and the dashes that lead to it. -/
def arrow (indent : Nat) : List Char :=
  List.replicate indent '-' ++ ['^']

/-- The three lines that show where on a line a diagnostic stands. -/
def excerpt (line : Line) : List Char :=
  let number := (toString line.number).toList
  let bar := gutter (number.length + 2)
  bar ++ ['\n']
    ++ number ++ " | ".toList ++ codeOf line.text ++ ['\n']
    ++ bar ++ [' '] ++ arrow (line.column - indentOf line.text) ++ ['\n']

/-- The diagnostic as it is shown to the writer of `source`. Where its offset lies outside of the
source no line is shown. -/
def render (d : Diagnostic) (source : List Char) : String :=
  d.headline ++ "\n-> " ++ d.position.file ++ "\n" ++
    match lineAt source d.position.offset with
    | none => ""
    | some line => String.ofList (excerpt line)

/-- The greatest width that anything can be padded to. -/
def widest : Nat :=
  UInt16.size - 1

/-- Whether the bars beside a line and the arrow under it can be padded as far as they have to. -/
def Fits (line : Line) : Prop :=
  (toString line.number).toList.length + 2 ≤ widest ∧
    (arrow (line.column - indentOf line.text)).length ≤ widest

instance (line : Line) : Decidable (Fits line) :=
  inferInstanceAs (Decidable (_ ∧ _))

/-- What is shown to the writer of `source`, unless a width is too great. -/
def shown (d : Diagnostic) (source : List Char) : Option String :=
  match lineAt source d.position.offset with
  | none => some (d.render source)
  | some line => if Fits line then some (d.render source) else none

end Diagnostic

end ExprYard
