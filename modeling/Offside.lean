import Offside.Command.Arguments
import Offside.Command.Directory
import Offside.Command.Run
import Offside.Command.Snippet
import Offside.Document.Encode
import Offside.Document.Json
import Offside.FrontEnd
import Offside.Log.Entry
import Offside.Log.Level
import Offside.Log.Narration
import Offside.Main
import Offside.Number.Binary64
import Offside.Number.Shortest
import Offside.Number.Style
import Offside.Parse.Error
import Offside.Parse.Expression
import Offside.Parse.Progress.Completion
import Offside.Parse.Progress.Expression
import Offside.Parse.Progress.Statement
import Offside.Parse.Run
import Offside.Parse.State
import Offside.Parse.Statement
import Offside.Proofs.Command.ExitCode
import Offside.Proofs.Command.Listing
import Offside.Proofs.Command.Snippet
import Offside.Proofs.Grammar.Acceptance
import Offside.Proofs.Grammar.Accepts
import Offside.Proofs.Grammar.Bare
import Offside.Proofs.Grammar.Clause
import Offside.Proofs.Grammar.ClauseCompleteness
import Offside.Proofs.Grammar.ClauseSoundness
import Offside.Proofs.Grammar.Concatenation
import Offside.Proofs.Grammar.Derives
import Offside.Proofs.Grammar.Follow
import Offside.Proofs.Grammar.Phrase
import Offside.Proofs.Grammar.PhraseCompleteness
import Offside.Proofs.Grammar.PhraseSoundness
import Offside.Proofs.Grammar.Precedence
import Offside.Proofs.Grammar.Source
import Offside.Proofs.Grammar.Unambiguity
import Offside.Proofs.Grammar.WellFormed
import Offside.Proofs.Nesting.Bounded
import Offside.Proofs.Nesting.Deeper
import Offside.Proofs.Nesting.Height
import Offside.Proofs.Nesting.Levels
import Offside.Proofs.Number.PlainNotation
import Offside.Proofs.Number.Rounding
import Offside.Proofs.Number.Shortest
import Offside.Proofs.Parsing.Ahead
import Offside.Proofs.Parsing.Alike
import Offside.Proofs.Parsing.BlankLines
import Offside.Proofs.Parsing.Composition
import Offside.Proofs.Parsing.Construct
import Offside.Proofs.Parsing.Demand
import Offside.Proofs.Parsing.Ensures
import Offside.Proofs.Parsing.Forward
import Offside.Proofs.Parsing.Gathering
import Offside.Proofs.Parsing.Harvest
import Offside.Proofs.Parsing.Invariants
import Offside.Proofs.Parsing.Leaves
import Offside.Proofs.Parsing.Line
import Offside.Proofs.Parsing.LineEndings
import Offside.Proofs.Parsing.LineJoining
import Offside.Proofs.Parsing.Locality
import Offside.Proofs.Parsing.Mention
import Offside.Proofs.Parsing.Mirror
import Offside.Proofs.Parsing.Moves
import Offside.Proofs.Parsing.Parting
import Offside.Proofs.Parsing.Positions
import Offside.Proofs.Parsing.Retrace
import Offside.Proofs.Parsing.Run
import Offside.Proofs.Parsing.SameOutcomes
import Offside.Proofs.Parsing.SourceOrder
import Offside.Proofs.Parsing.Truthful
import Offside.Proofs.Parsing.Wall
import Offside.Proofs.Recovery.Barrier
import Offside.Proofs.Recovery.Confinement
import Offside.Proofs.Recovery.Fence
import Offside.Proofs.Recovery.Heading
import Offside.Proofs.Recovery.InOrder
import Offside.Proofs.Recovery.Neighbor
import Offside.Proofs.Recovery.Progress
import Offside.Proofs.Recovery.Sibling
import Offside.Proofs.Recovery.Skipping
import Offside.Proofs.Recovery.Strictness
import Offside.Proofs.Recovery.Sweep
import Offside.Proofs.Recovery.Totality
import Offside.Proofs.Rendering.Expression
import Offside.Proofs.Rendering.Legibility
import Offside.Proofs.Rendering.Lines
import Offside.Proofs.Rendering.Literal
import Offside.Proofs.Rendering.RoundTrip
import Offside.Proofs.Rendering.Statement
import Offside.Proofs.Rendering.Tokens
import Offside.Proofs.Scanning.Arrival
import Offside.Proofs.Scanning.Balance
import Offside.Proofs.Scanning.BlankLine
import Offside.Proofs.Scanning.BracketLine
import Offside.Proofs.Scanning.Columns
import Offside.Proofs.Scanning.Consistency
import Offside.Proofs.Scanning.Displacement
import Offside.Proofs.Scanning.Extent
import Offside.Proofs.Scanning.Fork
import Offside.Proofs.Scanning.Junction
import Offside.Proofs.Scanning.LastLine
import Offside.Proofs.Scanning.Layout
import Offside.Proofs.Scanning.Levels
import Offside.Proofs.Scanning.Lexeme
import Offside.Proofs.Scanning.LineBreak
import Offside.Proofs.Scanning.LineFeeds
import Offside.Proofs.Scanning.LineJoining
import Offside.Proofs.Scanning.Lockstep
import Offside.Proofs.Scanning.Lossless
import Offside.Proofs.Scanning.NameLines
import Offside.Proofs.Scanning.NextLine
import Offside.Proofs.Scanning.NextToken
import Offside.Proofs.Scanning.NumberLiteral
import Offside.Proofs.Scanning.Numeral
import Offside.Proofs.Scanning.OffsideRule
import Offside.Proofs.Scanning.Outcomes
import Offside.Proofs.Scanning.Pairing
import Offside.Proofs.Scanning.Parallel
import Offside.Proofs.Scanning.Places
import Offside.Proofs.Scanning.Reading
import Offside.Proofs.Scanning.Requests
import Offside.Proofs.Scanning.SameText
import Offside.Proofs.Scanning.Shape
import Offside.Proofs.Scanning.Spelling
import Offside.Proofs.Scanning.Stream
import Offside.Proofs.Scanning.StringLiteral
import Offside.Proofs.Scanning.Window
import Offside.Report
import Offside.Scan.Context
import Offside.Scan.Lexer
import Offside.Scan.Number
import Offside.Scan.Quotation
import Offside.Scan.Scanner
import Offside.Scan.Symbol
import Offside.Scan.Window
import Offside.Settings.Basic
import Offside.Settings.Lexeme
import Offside.Settings.Reader
import Offside.Settings.Refusal
import Offside.Settings.Skip
import Offside.Text.Blank
import Offside.Text.Cursor
import Offside.Text.Position
import Offside.Text.Printable
import Offside.Text.Quoted
import Offside.Text.Stream
import Offside.Text.Utf8
import Offside.Token.Alphabet
import Offside.Token.Basic
import Offside.Token.Fault
import Offside.Token.Kind
import Offside.Tree.Expr
import Offside.Tree.Operator
import Offside.Tree.Stmt
