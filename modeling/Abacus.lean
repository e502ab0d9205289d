import Abacus.App
import Abacus.App.Arguments
import Abacus.App.Machine
import Abacus.Calculator
import Abacus.Console.Command
import Abacus.Console.Completion
import Abacus.Console.Editor
import Abacus.Console.Grouping
import Abacus.Console.HistoryPath
import Abacus.Console.Input
import Abacus.Console.Listing
import Abacus.Console.Palette
import Abacus.Console.Repl
import Abacus.Console.Typing
import Abacus.Decimal.Binary
import Abacus.Decimal.Layout
import Abacus.Decimal.Nearest
import Abacus.Decimal.Numeral
import Abacus.Decimal.Shortest
import Abacus.Dict
import Abacus.Double
import Abacus.Environment
import Abacus.Expr
import Abacus.Expr.Parser
import Abacus.Files
import Abacus.Files.Path
import Abacus.Files.Tree
import Abacus.Json
import Abacus.Json.Number
import Abacus.Json.Read
import Abacus.Main
import Abacus.Number
import Abacus.Number.Arithmetic
import Abacus.Number.Checked
import Abacus.Number.Literal
import Abacus.Number.Radix
import Abacus.Operation
import Abacus.Session
import Abacus.Settings
import Abacus.Settings.Store
import Abacus.Snapshot
import Abacus.Statement
import Abacus.Statement.Parser
import Abacus.SyntaxError
import Abacus.Text.Backspace
import Abacus.Text.Blank
import Abacus.Text.Bytes
import Abacus.Text.Cluster
import Abacus.Text.Cluster.Ranges
import Abacus.Text.Digit
import Abacus.Text.Pad
import Abacus.Text.Reader
import Abacus.Token
import Abacus.Token.Lexer
import Abacus.Toml
import Abacus.Toml.Canonical
import Abacus.Toml.Datetime
import Abacus.Toml.Document
import Abacus.Toml.Lexical
import Abacus.Toml.Parser
import Abacus.Toml.Printer
import Abacus.Toml.Quoted
import Abacus.Proofs.SessionRecord
import Abacus.Proofs.Grammar
import Abacus.Proofs.Parsing
import Abacus.Proofs.StatementParsing
import Abacus.Proofs.Previews
import Abacus.Proofs.FloatWord
import Abacus.Proofs.JsonText
import Abacus.Proofs.Rounding
import Abacus.Proofs.FloatArithmetic
import Abacus.Proofs.ShortestDecimal
import Abacus.Proofs.WrittenNumbers
import Abacus.Proofs.RealsReadBack
import Abacus.Proofs.FiniteReals
import Abacus.Proofs.FiniteSeeds
import Abacus.Proofs.SnapshotRoundTrip
import Abacus.Proofs.SnapshotFormat
import Abacus.Proofs.CheckedWords
import Abacus.Proofs.ExactIntegers
import Abacus.Proofs.FileLaws
import Abacus.Proofs.StoredSnapshots
import Abacus.Proofs.SavingLines
import Abacus.Proofs.LastSave
import Abacus.Proofs.CanonicalSettings
import Abacus.Proofs.GrowingTrees
import Abacus.Proofs.RepeatedStores
import Abacus.Proofs.Discovery
import Abacus.Proofs.NextStart
import Abacus.Proofs.QuotedText
import Abacus.Proofs.ScalarText
import Abacus.Proofs.RealText
import Abacus.Proofs.DateText
import Abacus.Proofs.SoundValues
import Abacus.Proofs.BuiltTables
import Abacus.Proofs.ValueText
import Abacus.Proofs.PrintedFiles
import Abacus.Proofs.ReadBack
import Abacus.Proofs.SaveHooks
import Abacus.Proofs.SaveSlots
import Abacus.Proofs.FiniteSnapshots
import Abacus.Proofs.Layout
import Abacus.Proofs.PipedLines
import Abacus.Proofs.Conversation
import Abacus.Proofs.Evaluation
import Abacus.Proofs.OutputFormats
import Abacus.Proofs.BoundNames
import Abacus.Proofs.Markup
import Abacus.Proofs.MarkedConversation
import Abacus.Proofs.MarkedTurns
import Abacus.Proofs.FilesAlone
import Abacus.Proofs.Reports
import Abacus.Proofs.Boards
import Abacus.Proofs.EscapeFree
import Abacus.Proofs.CleanSessions
import Abacus.Proofs.CleanTurns
import Abacus.Proofs.CleanReports
import Abacus.Proofs.Colours
import Abacus.Proofs.Remainders
import Abacus.Proofs.Spacing
import Abacus.Proofs.ParserFaults
import Abacus.Proofs.Lossless
import Abacus.Proofs.LeftmostFault
import Abacus.Proofs.DigitRuns
import Abacus.Proofs.NearestDoubles
import Abacus.Proofs.LiteralForms
import Abacus.Proofs.PrintedIntegers
import Abacus.Proofs.TokenRoles
import Abacus.Proofs.OneKeyEdited
import Abacus.Proofs.DigitGroups
import Abacus.Proofs.Completions
import Abacus.Proofs.Highlighting
import Abacus.Proofs.Assignments
import Abacus.Proofs.HistoryPaths
