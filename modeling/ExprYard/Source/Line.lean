import ExprYard.Text.Cut

/-!
# Lines

A line of a source ends with its newline, which belongs to it; only the last line may lack one.
`lineAt` finds the line of an offset and the offset's column in it. The end of the source is a place
too: it stands just past the last line, even where that line ends with a newline.
-/

namespace ExprYard

/-- A line of a source, numbered from 1, and a column in it, counted from 0. -/
structure Line where
  number : Nat
  text : List Char
  column : Nat
deriving DecidableEq

namespace Line

/-- The lines of a source, newlines included. Joined they are the source again, and an empty source
has none. -/
def split (source : List Char) : List (List Char) :=
  Text.splitAfter '\n' source

/-- The line of `lines` that holds the rune `offset` runes after their start; `number` is the number
of the first of them. -/
def locate (number offset : Nat) : List (List Char) → Option Line
  | [] => none
  | line :: rest =>
    if offset < line.length then some ⟨number, line, offset⟩
    else locate (number + 1) (offset - line.length) rest

/-- The end of a source with the given lines: past the last one, or on an empty line 1 where there
is none. -/
def atEnd (lines : List (List Char)) : Line :=
  let last := lines.getLast?.getD []
  ⟨max 1 lines.length, last, last.length⟩

end Line

/-- The line of an offset of the source, or `none` past the source's end. -/
def lineAt (source : List Char) (offset : Nat) : Option Line :=
  let lines := Line.split source
  match Line.locate 1 offset lines with
  | some line => some line
  | none => if offset = source.length then some (Line.atEnd lines) else none

end ExprYard
