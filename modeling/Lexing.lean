import Lexing.Analysis.Basic
import Lexing.Analysis.Counts
import Lexing.Analysis.Metrics
import Lexing.Analysis.Opening
import Lexing.Batch.Basic
import Lexing.Batch.Discovery
import Lexing.Batch.Pool
import Lexing.Batch.Results
import Lexing.Batch.Settings
import Lexing.CommandLine.Basic
import Lexing.CommandLine.Options
import Lexing.CommandLine.Report
import Lexing.Decimal.Binary64
import Lexing.Decimal.Layout
import Lexing.Decimal.Numeral
import Lexing.Decimal.Shortest
import Lexing.Files.Creation
import Lexing.Files.Error
import Lexing.Files.Loader
import Lexing.Files.Path
import Lexing.Files.Tree
import Lexing.Files.Walk
import Lexing.Journal.Basic
import Lexing.Journal.Collector
import Lexing.Journal.Event
import Lexing.Journal.Level
import Lexing.Journal.Logger
import Lexing.Journal.Output
import Lexing.Journal.Registry
import Lexing.Journal.Timestamp
import Lexing.Json.Basic
import Lexing.Main
import Lexing.Proofs.Analysis.Runs
import Lexing.Proofs.Analysis.Tallies
import Lexing.Proofs.Batch.Accounts
import Lexing.Proofs.Batch.Attribution
import Lexing.Proofs.Batch.Ceiling
import Lexing.Proofs.Batch.Collecting
import Lexing.Proofs.Batch.Discovery
import Lexing.Proofs.Batch.FailFast
import Lexing.Proofs.Batch.Pool
import Lexing.Proofs.Batch.Rounds
import Lexing.Proofs.Batch.Run
import Lexing.Proofs.Batch.Sources
import Lexing.Proofs.CommandLine.Exit
import Lexing.Proofs.CommandLine.Groups
import Lexing.Proofs.Decimal.Rounding
import Lexing.Proofs.Decimal.Words
import Lexing.Proofs.Files.Listing
import Lexing.Proofs.Files.Loading
import Lexing.Proofs.Files.Names
import Lexing.Proofs.Files.Paths
import Lexing.Proofs.Journal.Attribution
import Lexing.Proofs.Journal.Collecting
import Lexing.Proofs.Journal.Nesting
import Lexing.Proofs.Journal.Retention
import Lexing.Proofs.Journal.Summaries
import Lexing.Proofs.Scan.Alignment
import Lexing.Proofs.Scan.Calls
import Lexing.Proofs.Scan.Extent
import Lexing.Proofs.Scan.Faults
import Lexing.Proofs.Scan.Grammar
import Lexing.Proofs.Scan.Limits
import Lexing.Proofs.Scan.Literals
import Lexing.Proofs.Scan.Lookahead
import Lexing.Proofs.Scan.Numbers
import Lexing.Proofs.Scan.Payloads
import Lexing.Proofs.Scan.Pieces
import Lexing.Proofs.Scan.Quotation
import Lexing.Proofs.Scan.Reach
import Lexing.Proofs.Scan.Reading
import Lexing.Proofs.Scan.Recognition
import Lexing.Proofs.Scan.Rereading
import Lexing.Proofs.Scan.Returns
import Lexing.Proofs.Scan.Rules
import Lexing.Proofs.Scan.Shift
import Lexing.Proofs.Scan.Sites
import Lexing.Proofs.Scan.Skipping
import Lexing.Proofs.Scan.Spelling
import Lexing.Proofs.Scan.Strings
import Lexing.Proofs.Scan.Trivia
import Lexing.Proofs.Scan.Turns
import Lexing.Proofs.Settings.Keys
import Lexing.Proofs.Settings.Listings
import Lexing.Proofs.Settings.Profiles
import Lexing.Proofs.Source.Coordinates
import Lexing.Proofs.Source.Lines
import Lexing.Proofs.Source.Movement
import Lexing.Proofs.Source.Rows
import Lexing.Proofs.Stream.Building
import Lexing.Proofs.Stream.Coalescing
import Lexing.Proofs.Stream.Excerpts
import Lexing.Proofs.Stream.Finish
import Lexing.Proofs.Stream.Limits
import Lexing.Proofs.Stream.Lines
import Lexing.Proofs.Stream.Lookahead
import Lexing.Proofs.Stream.Navigation
import Lexing.Proofs.Stream.Places
import Lexing.Proofs.Stream.Recognition
import Lexing.Proofs.Stream.Rereading
import Lexing.Proofs.Stream.Returns
import Lexing.Proofs.Stream.Scan
import Lexing.Proofs.Stream.Spellings
import Lexing.Proofs.Stream.Tokens
import Lexing.Proofs.Text.Clamping
import Lexing.Scan.Comments
import Lexing.Scan.Diagnostic
import Lexing.Scan.Lexeme
import Lexing.Scan.Number
import Lexing.Scan.Piece
import Lexing.Scan.Quotation
import Lexing.Scan.Recognizer
import Lexing.Scan.Scanner
import Lexing.Scan.Trivia
import Lexing.Scan.Word
import Lexing.Settings.BuildProfile
import Lexing.Settings.Document
import Lexing.Settings.Environment
import Lexing.Settings.Limits
import Lexing.Settings.Preferences
import Lexing.Source.ByteCursor
import Lexing.Source.Cursor
import Lexing.Source.Lines
import Lexing.Source.Span
import Lexing.Stream.Basic
import Lexing.Stream.Builder
import Lexing.Text.Bytes
import Lexing.Text.Cased
import Lexing.Text.Classes
import Lexing.Text.Extending
import Lexing.Text.Invisible
import Lexing.Text.Lowercase
import Lexing.Text.Quoted
import Lexing.Text.Utf8
import Lexing.Token.Basic
import Lexing.Token.Keyword
import Lexing.Token.Kind
import Lexing.Token.Symbol
import Lexing.Toml.Document
import Lexing.Toml.Scalar
import Lexing.Toml.Value
