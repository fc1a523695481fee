import ExprYard.Command.Report

/-!
# Arguments

The arguments of the command line: flags, which may be shortened to a letter where they have one and
then written together, and expressions. After `--` every argument is an expression.
-/

namespace ExprYard.Command

/-- The arguments of a session. -/
structure Arguments where
  options : Options
  texts : List String
deriving DecidableEq

namespace Arguments

/-- No flags and no expressions. -/
def none : Arguments :=
  ⟨⟨false, false, false⟩, []⟩

/-- Sets the flag that has the given letter. -/
def setLetter (a : Arguments) : Char → Option Arguments
  | 't' => some { a with options := { a.options with tokens := true } }
  | 'v' => some { a with options := { a.options with verbose := true } }
  | _ => Option.none

/-- Sets the flags of the given letters. -/
def setLetters (a : Arguments) : List Char → Option Arguments
  | [] => some a
  | c :: cs => (a.setLetter c).bind fun b => b.setLetters cs

/-- Sets the flag of the given name. -/
def setFlag (a : Arguments) : String → Option Arguments
  | "tokens" => a.setLetter 't'
  | "verbose" => a.setLetter 'v'
  | "threaded" => some { a with options := { a.options with threaded := true } }
  | _ => Option.none

/-- Adds an expression after those before it. -/
def addText (a : Arguments) (text : String) : Arguments :=
  { a with texts := a.texts ++ [text] }

/-- Reads arguments one by one. The result is the first that is no flag and no expression, where
there is one. -/
def read : Arguments → List String → Except String Arguments
  | a, [] => .ok a
  | a, arg :: rest =>
    match arg.toList with
    | ['-', '-'] => .ok (rest.foldl addText a)
    | '-' :: '-' :: name =>
      match a.setFlag (String.ofList name) with
      | some b => read b rest
      | Option.none => .error arg
    | '-' :: c :: cs =>
      match a.setLetters (c :: cs) with
      | some b => read b rest
      | Option.none => .error arg
    | _ => read (a.addText arg) rest

/-- The meaning of a list of arguments. -/
def ofList (args : List String) : Except String Arguments :=
  none.read args

end Arguments

end ExprYard.Command
