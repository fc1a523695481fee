import ExprYard.Command.Arguments
import ExprYard.Command.Report
import ExprYard.Command.Session
import ExprYard.Diagnostic
import ExprYard.Lexer.Basic
import ExprYard.Lexer.Cursor
import ExprYard.Lexer.Lemmas
import ExprYard.Lexer.Narrow
import ExprYard.Lexer.Progress
import ExprYard.Lexer.Run
import ExprYard.Lexer.Step
import ExprYard.Main
import ExprYard.Parser.Basic
import ExprYard.Parser.Parse
import ExprYard.Pipeline.Network
import ExprYard.Pipeline.Parse
import ExprYard.Pipeline.Relay
import ExprYard.Problem
import ExprYard.Proofs.Beforehand
import ExprYard.Proofs.Chains
import ExprYard.Proofs.Composition
import ExprYard.Proofs.Enclosing
import ExprYard.Proofs.Finality
import ExprYard.Proofs.Grammar.Arguments
import ExprYard.Proofs.Grammar.Blame
import ExprYard.Proofs.Grammar.Brackets
import ExprYard.Proofs.Grammar.Cutting
import ExprYard.Proofs.Grammar.Draft
import ExprYard.Proofs.Grammar.Following
import ExprYard.Proofs.Grammar.Infix
import ExprYard.Proofs.Grammar.Language
import ExprYard.Proofs.Grammar.Lists
import ExprYard.Proofs.Grammar.Precedence
import ExprYard.Proofs.Grammar.Printing
import ExprYard.Proofs.Grammar.Reading
import ExprYard.Proofs.Grammar.Statements
import ExprYard.Proofs.Grammar.Syntax
import ExprYard.Proofs.Grammar.Verdict
import ExprYard.Proofs.Layout
import ExprYard.Proofs.Lexer.Account
import ExprYard.Proofs.Lexer.Answers
import ExprYard.Proofs.Lexer.Automaton
import ExprYard.Proofs.Lexer.Bounds
import ExprYard.Proofs.Lexer.Continuing
import ExprYard.Proofs.Lexer.Counts
import ExprYard.Proofs.Lexer.Course
import ExprYard.Proofs.Lexer.Enclosed
import ExprYard.Proofs.Lexer.Fractions
import ExprYard.Proofs.Lexer.Incremental
import ExprYard.Proofs.Lexer.Lexemes
import ExprYard.Proofs.Lexer.Lookahead
import ExprYard.Proofs.Lexer.Munching
import ExprYard.Proofs.Lexer.Narrowing
import ExprYard.Proofs.Lexer.Numbers
import ExprYard.Proofs.Lexer.Phrases
import ExprYard.Proofs.Lexer.Phrasing
import ExprYard.Proofs.Lexer.Printing
import ExprYard.Proofs.Lexer.Recognizing
import ExprYard.Proofs.Lexer.Requests
import ExprYard.Proofs.Lexer.Routines
import ExprYard.Proofs.Lexer.Runs
import ExprYard.Proofs.Lexer.Spelling
import ExprYard.Proofs.Lexer.Stretches
import ExprYard.Proofs.Lexer.Strokes
import ExprYard.Proofs.Lexer.Termination
import ExprYard.Proofs.Lexer.Tiles
import ExprYard.Proofs.Lexer.Tiling
import ExprYard.Proofs.Lexer.Turns
import ExprYard.Proofs.Parser.Ascent
import ExprYard.Proofs.Parser.Backdrop
import ExprYard.Proofs.Parser.Balance
import ExprYard.Proofs.Parser.Bounds
import ExprYard.Proofs.Parser.Feeding
import ExprYard.Proofs.Parser.Floors
import ExprYard.Proofs.Parser.Holdings
import ExprYard.Proofs.Parser.Levels
import ExprYard.Proofs.Parser.Places
import ExprYard.Proofs.Parser.Reports
import ExprYard.Proofs.Parser.Requests
import ExprYard.Proofs.Parser.Restarts
import ExprYard.Proofs.Parser.Scopes
import ExprYard.Proofs.Parser.Shapes
import ExprYard.Proofs.Parser.Steps
import ExprYard.Proofs.Parser.Yard
import ExprYard.Proofs.Pipeline.Agreement
import ExprYard.Proofs.Pipeline.Delivery
import ExprYard.Proofs.Pipeline.Rendezvous
import ExprYard.Proofs.Prompt
import ExprYard.Proofs.Relexing
import ExprYard.Proofs.Relocation
import ExprYard.Proofs.Rendering
import ExprYard.Proofs.Session
import ExprYard.Proofs.Source.Carets
import ExprYard.Proofs.Source.Counting
import ExprYard.Proofs.Source.Lines
import ExprYard.Rune.Alphabetic
import ExprYard.Rune.Blank
import ExprYard.Rune.Class
import ExprYard.Rune.Extending
import ExprYard.Rune.Ignorable
import ExprYard.Rune.Numeric
import ExprYard.Rune.Table
import ExprYard.Rune.Unprintable
import ExprYard.Sink
import ExprYard.Source.Line
import ExprYard.Source.Position
import ExprYard.Text.Cut
import ExprYard.Text.Quoted
import ExprYard.Token
import ExprYard.Tree
import ExprYard.Vocabulary.Keyword
import ExprYard.Vocabulary.Operator
import ExprYard.Vocabulary.TypeWord
