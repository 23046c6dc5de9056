import Conform.Atom
import Conform.Base64
import Conform.Calendar
import Conform.Command.Console
import Conform.Command.Folder
import Conform.Command.Path
import Conform.Command.Request
import Conform.Command.Run
import Conform.Fault
import Conform.Graph
import Conform.Logging
import Conform.Main
import Conform.Markup.Anchors
import Conform.Markup.Layout
import Conform.Markup.Load
import Conform.Markup.Node
import Conform.Markup.Objects
import Conform.Markup.Pattern
import Conform.Markup.Pen
import Conform.Markup.Print
import Conform.Markup.Scalar.Block
import Conform.Markup.Scalar.Gap
import Conform.Markup.Scalar.Meaning
import Conform.Markup.Scalar.Plain
import Conform.Markup.Scalar.Quoted
import Conform.Markup.Source
import Conform.Markup.Style
import Conform.Markup.Tag
import Conform.Markup.Token
import Conform.Markup.Tokens
import Conform.Number.Double
import Conform.Number.Numeral
import Conform.Number.Shortest
import Conform.Proofs.Base64
import Conform.Proofs.Blocks
import Conform.Proofs.Calendar
import Conform.Proofs.Command.Cropping
import Conform.Proofs.Command.Runs
import Conform.Proofs.Command.Verbatim
import Conform.Proofs.Command.Verbosity
import Conform.Proofs.Conformance
import Conform.Proofs.Failing
import Conform.Proofs.KeyEquality
import Conform.Proofs.Keys
import Conform.Proofs.LineEnds
import Conform.Proofs.Loggers
import Conform.Proofs.Logging
import Conform.Proofs.Markup.Anchors
import Conform.Proofs.Markup.Atoms
import Conform.Proofs.Markup.Composing
import Conform.Proofs.Markup.Denoted
import Conform.Proofs.Markup.Filling
import Conform.Proofs.Markup.Flattening
import Conform.Proofs.Markup.Keyed
import Conform.Proofs.Markup.Layout
import Conform.Proofs.Markup.Lineage
import Conform.Proofs.Markup.Markers
import Conform.Proofs.Markup.Misread
import Conform.Proofs.Markup.Lines
import Conform.Proofs.Markup.Nodes
import Conform.Proofs.Markup.Outlines
import Conform.Proofs.Markup.Places
import Conform.Proofs.Markup.PlainLines
import Conform.Proofs.Markup.PlainScalars
import Conform.Proofs.Markup.Precedence
import Conform.Proofs.Markup.Progress
import Conform.Proofs.Markup.SameTokens
import Conform.Proofs.Markup.Scalar.Block
import Conform.Proofs.Markup.Scalar.Double
import Conform.Proofs.Markup.Scalar.Escape
import Conform.Proofs.Markup.Scalar.Forms
import Conform.Proofs.Markup.Scalar.Gap
import Conform.Proofs.Markup.Scalar.Plain
import Conform.Proofs.Markup.Scalar.Single
import Conform.Proofs.Markup.ShortKeys
import Conform.Proofs.Markup.Shown
import Conform.Proofs.Markup.Spelling
import Conform.Proofs.Markup.Style
import Conform.Proofs.Markup.Tokens
import Conform.Proofs.Markup.Unvalued
import Conform.Proofs.Markup.Walk
import Conform.Proofs.Names
import Conform.Proofs.Number.Numeral
import Conform.Proofs.Number.Range
import Conform.Proofs.Reach
import Conform.Proofs.Record
import Conform.Proofs.Rejections
import Conform.Proofs.Reports
import Conform.Proofs.RoundTrip
import Conform.Proofs.SchemaDocument
import Conform.Proofs.Sessions
import Conform.Proofs.TextLines
import Conform.Proofs.Settings
import Conform.Proofs.Settling
import Conform.Rejection
import Conform.Report
import Conform.Schema.Basic
import Conform.Schema.Check
import Conform.Schema.Compile
import Conform.Schema.PropertyType
import Conform.Session
import Conform.Settings.Basic
import Conform.Settings.Bindings
import Conform.Text.Blank
import Conform.Text.CodePoint
import Conform.Text.Columns
import Conform.Text.DecimalDigit
import Conform.Text.Lines
import Conform.Text.Printable
import Conform.Text.Quoted
import Conform.Validation
import Conform.Value
import Conform.Proofs.Violations
import Conform.Proofs.SchemaReports
import Conform.Proofs.Invariance
import Conform.Proofs.Extension
import Conform.Proofs.Forgery
import Conform.Proofs.Markup.Dialect
import Conform.Proofs.Markup.Legible
import Conform.Proofs.Markup.Times
import Conform.Proofs.Markup.Looks
import Conform.Proofs.Markup.Lone
import Conform.Proofs.Markup.Integers
